import AgentTrajectory.OverlapResolution
import AgentTrajectory.RelatedLists

/-! The result of `decompose_one_task` for a small task: its members are exclusive and its
tail is marked whatever the model answers; purity and sanity, which the repair establishes
before overlaps are resolved, depend on which numbers the resolution takes. -/
namespace AgentTrajectory.LlmDecompose
open PyText PyDict PyJson PyValue TaskStitch LlmSegment RelatedLists

variable {attempts : List (Except PyError Result)} {ids : List Json}

def PureRollbacks (env : Env) (rows : List Event) (r : Result) : Prop :=
  ∀ s ∈ r.subreqs, isRollback s = true → StartsWithUser env rows s

def SaneStatuses (env : Env) (r : Result) : Prop :=
  ∀ s ∈ r.subreqs, (s.numbers env).dedup.length < 2 → isReworkStatus s.status = true →
    Touched r.edges s.idOf

/-- Only the sub-requirement with the largest member is unfinished, and only if the task is. -/
def TailStatus (env : Env) (terminal : Bool) (r : Result) : Prop :=
  if terminal then ∀ s ∈ r.subreqs, s.status ≠ unfinished
  else r.subreqs ≠ [] → ∃ (i : ℕ) (s : Subreq), r.subreqs[i]? = some s ∧ s.status = unfinished ∧
    (∀ t ∈ r.subreqs, maxIdx env t ≤ maxIdx env s) ∧
    ∀ (j : ℕ) (t : Subreq), r.subreqs[j]? = some t → t.status = unfinished → j = i

/-- What the tail pass may do to a sub-requirement. -/
structure Settled (ids : List Json) (s s' : Subreq) : Prop where
  id : s'.id = s.id
  title : s'.title = s.title
  type : s'.type = s.type
  members : s'.memberIdx = s.memberIdx
  status : s'.status = s.status ∨ s'.status = unfinished ∨
    s.status = unfinished ∧ (s'.status = passed ∨ s'.status = reworked ∧ s.idOf ∈ ids)

lemma Settled.numbers {env : Env} {s s' : Subreq} (h : Settled ids s s') :
    s'.numbers env = s.numbers env := by
  rw [Subreq.numbers, h.members, Subreq.numbers]

lemma Settled.idOf {s s' : Subreq} (h : Settled ids s s') : s'.idOf = s.idOf := by
  rw [Subreq.idOf, h.id, Subreq.idOf]

lemma passed_ne_unfinished : passed ≠ unfinished := by decide

lemma reworked_ne_unfinished : reworked ≠ unfinished := by decide

lemma settleStatus_ok {terminal isTail : Bool} {s s' : Subreq}
    (h : settleStatus ids terminal isTail s = .ok s') :
    Settled ids s s' ∧ (s'.status = unfinished ↔ isTail = true ∧ terminal = false) := by
  rw [settleStatus] at h
  split_ifs at h with htail hun
  · obtain rfl := Except.ok.inj h
    exact ⟨⟨rfl, rfl, rfl, rfl, .inr (.inl rfl)⟩, by simpa using htail⟩
  · have hnot : ¬ (isTail = true ∧ terminal = false) := by simpa using htail
    rw [evidenceStatus] at h
    cases hin : inSet s.idOf ids with
    | error e => simp [hin, Except.map] at h
    | ok b =>
      simp only [hin, Except.map, Except.ok.injEq] at h
      subst h
      cases b with
      | true =>
        exact ⟨⟨rfl, rfl, rfl, rfl, .inr (.inr ⟨hun, .inr ⟨rfl, (inSet_ok hin).mp rfl⟩⟩)⟩,
          iff_of_false reworked_ne_unfinished hnot⟩
      | false =>
        exact ⟨⟨rfl, rfl, rfl, rfl, .inr (.inr ⟨hun, .inl rfl⟩)⟩,
          iff_of_false passed_ne_unfinished hnot⟩
  · obtain rfl := Except.ok.inj h
    exact ⟨⟨rfl, rfl, rfl, rfl, .inl rfl⟩, iff_of_false hun (by simpa using htail)⟩

lemma settleFrom_ok {terminal : Bool} {tail i : ℕ} {ss ss' : List Subreq}
    (h : settleFrom ids terminal tail i ss = .ok ss') :
    List.Forall₂ (Settled ids) ss ss' ∧
      ∀ (j : ℕ) (s' : Subreq), ss'[j]? = some s' →
        (s'.status = unfinished ↔ i + j = tail ∧ terminal = false) := by
  induction ss generalizing i ss' with
  | nil =>
    obtain rfl := Except.ok.inj h
    exact ⟨.nil, by simp⟩
  | cons s ss ih =>
    rw [settleFrom] at h
    cases hs : settleStatus ids terminal (decide (i = tail)) s with
    | error e => simp [hs] at h
    | ok t =>
      cases hr : settleFrom ids terminal tail (i + 1) ss with
      | error e => simp [hs, hr, Except.map] at h
      | ok ts =>
        simp only [hs, hr, Except.map, Except.ok.injEq] at h
        subst h
        obtain ⟨hset, hun⟩ := settleStatus_ok hs
        obtain ⟨hrel, htail⟩ := ih hr
        refine ⟨.cons hset hrel, fun j s' hj => ?_⟩
        cases j with
        | zero =>
          obtain rfl : t = s' := by simpa using hj
          simpa using hun
        | succ j =>
          rw [htail j s' (by simpa using hj), show i + 1 + j = i + (j + 1) by omega]

lemma tailIndex_spec (ks pre : List ℕ) (best bestKey : ℕ) (hbest : pre[best]? = some bestKey)
    (hmax : ∀ k ∈ pre, k ≤ bestKey) :
    ∃ key, (pre ++ ks)[tailIndex best bestKey pre.length ks]? = some key ∧
    ∀ k ∈ pre ++ ks, k ≤ key := by
  induction ks generalizing pre best bestKey with
  | nil => exact ⟨bestKey, by simpa [tailIndex] using hbest, by simpa using hmax⟩
  | cons k ks ih =>
    rw [tailIndex, ← List.singleton_append, ← List.append_assoc]
    have hlen : (pre ++ [k]).length = pre.length + 1 := by simp
    split_ifs with hk
    · rw [← hlen]
      refine ih (pre ++ [k]) pre.length k (by simp) fun x hx => ?_
      rcases List.mem_append.mp hx with hx | hx
      · exact (hmax x hx).trans hk.le
      · exact (List.mem_singleton.mp hx).le
    · rw [← hlen]
      refine ih (pre ++ [k]) best bestKey ?_ fun x hx => ?_
      · rw [List.getElem?_append_left (List.getElem?_eq_some_iff.mp hbest).1, hbest]
      · rcases List.mem_append.mp hx with hx | hx
        · exact hmax x hx
        · rw [List.mem_singleton.mp hx]
          omega

lemma tailIndex_of_le {best bestKey i : ℕ} {ks : List ℕ} (h : ∀ k ∈ ks, k ≤ bestKey) :
    tailIndex best bestKey i ks = best := by
  induction ks generalizing i with
  | nil => rfl
  | cons k ks ih =>
    rw [tailIndex, if_neg (Nat.not_lt.mpr (h k (by simp)))]
    exact ih fun k' hk' => h k' (by simp [hk'])

theorem enforceTerminalTail_spec {env : Env} {terminal : Bool} {r r' : Result}
    (h : enforceTerminalTail env terminal r = .ok r') :
    TailStatus env terminal r' ∧ r'.edges = r.edges ∧
      ∃ ids, (∀ x ∈ ids, Touched r.edges x) ∧ List.Forall₂ (Settled ids) r.subreqs r'.subreqs ∧
        ((∀ s ∈ r.subreqs, s.numbers env = []) → ∀ (j : ℕ) (s' : Subreq), r'.subreqs[j]? = some s' →
          s'.status = unfinished → j = 0) := by
  rw [enforceTerminalTail] at h
  cases hsubs : r.subreqs with
  | nil =>
    simp only [hsubs, Except.ok.injEq] at h
    subst h
    refine ⟨?_, rfl, [], by simp, by rw [hsubs]; exact .nil, by simp [hsubs]⟩
    cases terminal <;> simp [TailStatus, hsubs]
  | cons s ss =>
    simp only [hsubs] at h
    cases hids : reworkIds r.edges with
    | error e => simp [hids] at h
    | ok ids =>
      generalize htail : tailIndex 0 (maxIdx env s) 1 (ss.map (maxIdx env)) = tail at h
      cases hset : settleFrom ids terminal tail 0 (s :: ss) with
      | error e => simp [hids, hset, Except.map] at h
      | ok out =>
        simp only [hids, hset, Except.map, Except.ok.injEq] at h
        subst h
        obtain ⟨hrel, hun⟩ := settleFrom_ok hset
        refine ⟨?_, rfl, ids, fun x hx => (reworkIds_ok hids x).mp hx, hrel,
          fun hempty j s' hj hs' => ?_⟩
        on_goal 2 =>
          have hzero : ∀ t ∈ s :: ss, maxIdx env t = 0 :=
            fun t ht => by rw [maxIdx, hempty t ht]; rfl
          have hkeys : ∀ k ∈ ss.map (maxIdx env), k ≤ maxIdx env s := by
            intro k hk
            obtain ⟨t, ht, rfl⟩ := List.mem_map.mp hk
            rw [hzero t (by simp [ht])]
            exact Nat.zero_le _
          have := ((hun j s' hj).mp hs').1
          rw [tailIndex_of_le hkeys] at htail
          omega
        cases terminal with
        | true =>
          intro t ht hbad
          obtain ⟨j, hj⟩ := List.mem_iff_getElem?.mp ht
          exact absurd ((hun j t hj).mp hbad).2 (by decide)
        | false =>
          intro _
          have hkeys : out.map (maxIdx env) = (s :: ss).map (maxIdx env) :=
            forall₂_map_eq hrel fun a b hab => by rw [maxIdx, hab.numbers, maxIdx]
          obtain ⟨key, hkey, hmax⟩ := tailIndex_spec (ss.map (maxIdx env)) [maxIdx env s] 0
            (maxIdx env s) rfl (by simp)
          rw [List.singleton_append, ← List.map_cons, ← hkeys] at hkey hmax
          rw [List.length_singleton, htail, List.getElem?_map, Option.map_eq_some_iff] at hkey
          obtain ⟨t, ht, rfl⟩ := hkey
          refine ⟨tail, t, ht, (hun tail t ht).mpr ⟨by omega, rfl⟩,
            fun u hu => hmax _ (List.mem_map_of_mem hu), fun j u hj hu => ?_⟩
          have := ((hun j u hj).mp hu).1
          omega

/-- The answers that the repair accepts, repaired. -/
def repaired (env : Env) (rows : List Event) (attempts : List (Except PyError Result)) :
    List Result :=
  attempts.filterMap fun a => (a.bind (repair env rows)).toOption

/-- The last call of `resolve_overlaps`, which makes the result: on the first repaired answer or,
if that has a large overlap, on the next one by force, and on what the first pass has left of the
first one if no other follows. -/
def lastCall (env : Env) (setOrder : ℕ → ℕ → Bool) : List Result → Option (Result × Bool)
  | [] => none
  | r :: rest =>
      if hasLargeOverlap env (r.subreqs.map (dedupSubreq env)) then
        some (rest.head?.getD (firstPass env setOrder r), true)
      else some (r, false)

section Loop
variable {env : Env} {setOrder : ℕ → ℕ → Bool} {rows : List Event}

lemma repaired_cons_error {a : Except PyError Result} {e : PyError}
    (ha : a.bind (repair env rows) = .error e) :
    repaired env rows (a :: attempts) = repaired env rows attempts := by
  simp [repaired, ha, Except.toOption]

lemma repaired_cons_ok {a : Except PyError Result} {R : Result}
    (ha : a.bind (repair env rows) = .ok R) :
    repaired env rows (a :: attempts) = R :: repaired env rows attempts := by
  simp [repaired, ha, Except.toOption]

lemma oneLoop_retried {last r : Result}
    (h : oneLoop env setOrder rows true (some last) attempts = .ok r) :
    resolveOverlaps env setOrder ((repaired env rows attempts).head?.getD last) true =
      .ok (r, false) := by
  induction attempts with
  | nil =>
    obtain ⟨⟨r', large⟩, hres, rfl⟩ := map_eq_ok.mp h
    have hlarge := (resolveOverlaps_spec hres).1
    simpa [hlarge, repaired] using hres
  | cons a attempts ih =>
    rw [oneLoop] at h
    cases ha : a.bind (repair env rows) with
    | error e =>
      simp only [ha] at h
      rw [repaired_cons_error ha]
      exact ih h
    | ok R =>
      cases hres : resolveOverlaps env setOrder R true with
      | error e => simp [ha, hres] at h
      | ok out =>
        obtain ⟨r', large⟩ := out
        obtain rfl : large = false := by simpa using (resolveOverlaps_spec hres).1
        simp only [ha, hres, Except.ok.injEq] at h
        subst h
        rw [repaired_cons_ok ha]
        exact hres

theorem oneLoop_spec {r : Result} (h : oneLoop env setOrder rows false none attempts = .ok r) :
    ∃ R force, lastCall env setOrder (repaired env rows attempts) = some (R, force) ∧
      resolveOverlaps env setOrder R force = .ok (r, false) := by
  induction attempts with
  | nil => simp [oneLoop] at h
  | cons a attempts ih =>
    rw [oneLoop] at h
    cases ha : a.bind (repair env rows) with
    | error e =>
      simp only [ha] at h
      rw [repaired_cons_error ha]
      exact ih h
    | ok R =>
      rw [repaired_cons_ok ha]
      cases hres : resolveOverlaps env setOrder R false with
      | error e => simp [ha, hres] at h
      | ok out =>
        obtain ⟨r', large⟩ := out
        obtain ⟨hlarge, hwait, -⟩ := resolveOverlaps_spec hres
        rw [Bool.not_false, Bool.and_true] at hlarge
        cases large with
        | false =>
          simp only [ha, hres, Except.ok.injEq] at h
          subst h
          exact ⟨R, false, by simp [lastCall, ← hlarge], hres⟩
        | true =>
          simp only [ha, hres] at h
          have hlast : lastCall env setOrder (R :: repaired env rows attempts) =
              some ((repaired env rows attempts).head?.getD r', true) := by
                simp [lastCall, ← hlarge, hwait rfl]
          exact ⟨_, true, hlast, oneLoop_retried h⟩

lemma mem_repaired {R : Result} (h : R ∈ repaired env rows attempts) :
    ∃ A, Except.ok A ∈ attempts ∧ repair env rows A = .ok R := by
  obtain ⟨a, ha, hR⟩ := List.mem_filterMap.mp h
  cases hrep : a.bind (repair env rows) with
  | error e => simp [hrep, Except.toOption] at hR
  | ok R' =>
    obtain rfl : R' = R := by simpa [hrep, Except.toOption] using hR
    obtain ⟨A, rfl, hA⟩ := bind_eq_ok.mp hrep
    exact ⟨A, ha, hA⟩

/-- The result is made of a repaired answer, as it is or after the first pass. -/
lemma less_of_oneLoop {r : Result}
    (h : oneLoop env setOrder rows false none attempts = .ok r) {s' : Subreq}
    (hs' : s' ∈ r.subreqs) :
    ∃ R ∈ repaired env rows attempts, ∃ s ∈ R.subreqs, Subreq.Less s s' := by
  obtain ⟨R, force, hlast, hres⟩ := oneLoop_spec h
  obtain ⟨s, hs, hless⟩ := less_of_mem_leftOf (((resolveOverlaps_spec hres).2.2 rfl).mem_leftOf hs')
  cases hrep : repaired env rows attempts with
  | nil => simp [hrep, lastCall] at hlast
  | cons R₀ rest =>
    rw [hrep, lastCall] at hlast
    split_ifs at hlast
    · obtain ⟨rfl, rfl⟩ := Prod.mk.inj (Option.some.inj hlast)
      cases rest with
      | nil =>
        obtain ⟨t, ht, hless'⟩ := less_of_mem_leftOf (firstPass_subreqs R₀ ▸ hs)
        exact ⟨R₀, by simp, t, ht, hless'.trans hless⟩
      | cons R₁ _ => exact ⟨R₁, by simp, s, hs, hless⟩
    · obtain ⟨rfl, rfl⟩ := Prod.mk.inj (Option.some.inj hlast)
      exact ⟨R₀, by simp, s, hs, hless⟩

lemma oneLoop_exclusive {r : Result}
    (h : oneLoop env setOrder rows false none attempts = .ok r) : Exclusive env r.subreqs := by
  obtain ⟨R, force, -, hres⟩ := oneLoop_spec h
  exact ((resolveOverlaps_spec hres).2.2 rfl).exclusive

end Loop

section Condition
variable (env : Env) (setOrder : ℕ → ℕ → Bool) (r : Result) (force : Bool)

/-- The sub-requirement at `i` of the answer keeps number `v`. -/
def Keeps (i v : ℕ) :
    Prop := holdsNumber env r.subreqs v i = true ∧ (i, v) ∉ takings env setOrder r force

def IsTail (i : ℕ) : Prop :=
  (∃ v, Keeps env setOrder r force i v ∧ ∀ j w, Keeps env setOrder r force j w → w ≤ v) ∨
    i = 0 ∧ ∀ j w, ¬ Keeps env setOrder r force j w

/-- Nothing is taken from the sub-requirement that purity and sanity rest on. A rollback that keeps
a user message keeps no bot message before it. If it is marked as reworked or corrected and keeps
less than two numbers, a rework edge names it, and no end of the edge names one that is pruned. -/
structure SparedAt (rows : List Event) (i : ℕ) (s : Subreq) : Prop where
  rollback : isRollback s = true →
    (∃ v, Keeps env setOrder r force i v ∧ isUserAt rows v = .ok true) →
    ∀ m, Keeps env setOrder r force i m → (∀ v, Keeps env setOrder r force i v → m ≤ v) →
      isUserAt rows m = .ok true
  status : isReworkStatus s.status = true →
    (∀ v w, Keeps env setOrder r force i v → Keeps env setOrder r force i w → v = w) →
    ∃ e ∈ r.edges, e.isRework = true ∧ (e.src = s.idOf ∨ e.dst = s.idOf) ∧
      (Overlapping env r → ∀ (j : ℕ) (t : Subreq), r.subreqs[j]? = some t →
        t.idOf = e.src ∨ t.idOf = e.dst →
        ∃ v, Keeps env setOrder r force j v)

/-- Every sub-requirement that is not pruned is spared; the tail of a task that goes on is marked
anew. -/
def Spared (rows : List Event) (terminal : Bool) : Prop :=
  ∀ (i : ℕ) (s : Subreq), r.subreqs[i]? = some s →
    (Overlapping env r → ∃ v, Keeps env setOrder r force i v) →
    (terminal = false → ¬ IsTail env setOrder r force i) → SparedAt env setOrder r force rows i s

end Condition

section Contract
variable {env : Env} {setOrder : ℕ → ℕ → Bool} {rows : List Event}

def Good (env : Env) (rows : List Event) (edges : List Edge) (s : Subreq) : Prop :=
  (isRollback s = true → StartsWithUser env rows s) ∧
    ((s.numbers env).dedup.length < 2 → isReworkStatus s.status = true → Touched edges s.idOf)

lemma good_of_unmarked {edges : List Edge} {s : Subreq} (h : isReworkStatus s.status = false) :
    Good env rows edges s := by
  have hroll : isRollback s = false := by
    simp only [isReworkStatus, Bool.or_eq_false_iff] at h
    simp [isRollback, h.2]
  exact ⟨fun hr => by simp [hroll] at hr, fun _ hr => by simp [h] at hr⟩

lemma Settled.good_iff {edges : List Edge} {s s' : Subreq} (h : Settled ids s s')
    (hids : ∀ x ∈ ids, Touched edges x) :
    Good env rows edges s' ↔ (s'.status ≠ unfinished → Good env rows edges s) := by
  have hsame (hst : s'.status = s.status) : Good env rows edges s' ↔ Good env rows edges s := by
    rw [Good, Good, StartsWithUser, StartsWithUser, isRollback, isRollback,
      h.numbers, h.idOf, hst, h.type]
  have hun : isReworkStatus unfinished = false := by decide
  by_cases hdone : s'.status = unfinished
  · exact iff_of_true (good_of_unmarked (hdone ▸ hun)) fun hne => absurd hdone hne
  simp only [ne_eq, hdone, not_false_eq_true, true_imp_iff]
  rcases h.status with hst | hst | ⟨hwas, hst⟩
  · exact hsame hst
  · exact absurd hst hdone
  · refine iff_of_true ?_ (good_of_unmarked (hwas ▸ hun))
    rcases hst with hst | ⟨hst, hid⟩
    · exact good_of_unmarked (hst ▸ isReworkStatus_passed)
    · have hroll : isRollback s' = false := by
        rw [isRollback, hst, show decide (reworked = corrected) = false by decide, Bool.false_and]
      exact ⟨fun hr => by simp [hroll] at hr, fun _ _ => h.idOf ▸ hids _ hid⟩

lemma contract_iff_good {r : Result} :
    PureRollbacks env rows r ∧ SaneStatuses env r ↔ ∀ s ∈ r.subreqs, Good env rows r.edges s :=
  ⟨fun h s hs => ⟨h.1 s hs, h.2 s hs⟩, fun h => ⟨fun s hs => (h s hs).1, fun s hs => (h s hs).2⟩⟩

lemma foldl_max_le {l : List ℕ} {m n : ℕ} :
    l.foldl (fun m v => max m (v + 1)) m ≤ n ↔ m ≤ n ∧ ∀ v ∈ l, v < n := by
  induction l generalizing m with
  | nil => simp
  | cons v l ih =>
    rw [List.foldl_cons, ih, List.forall_mem_cons, max_le_iff, Nat.succ_le_iff, and_assoc]

lemma maxIdx_le {s : Subreq} {n : ℕ} : maxIdx env s ≤ n ↔ ∀ v ∈ s.numbers env, v < n :=
  foldl_max_le.trans (by simp)

lemma exclusive_of_settled {subs subs' : List Subreq}
    (h : List.Forall₂ (Settled ids) subs subs') (hex : Exclusive env subs) :
    Exclusive env subs' := by
  have hnum : subs'.map (Subreq.numbers env) = subs.map (Subreq.numbers env) :=
    forall₂_map_eq h fun _ _ hab => hab.numbers
  rw [Exclusive, ← List.pairwise_map, hnum, List.pairwise_map]
  exact hex

section Places
variable {r r₁ r' : Result} {force terminal : Bool}

lemma mem_numbers_iff_keeps {i : ℕ} {l : Subreq}
    (h : (leftOf env setOrder r force)[i]? = some l) {v : ℕ} :
    v ∈ l.numbers env ↔ Keeps env setOrder r force i v := by
  obtain ⟨s, hs, -, hnum⟩ := leftOf_less h
  rw [hnum, Keeps, holdsNumber_iff]
  simp [hs]

lemma exists_left {i : ℕ} {s : Subreq} (hs : r.subreqs[i]? = some s) :
    ∃ l, (leftOf env setOrder r force)[i]? = some l ∧ Subreq.Less s l := by
  obtain ⟨l, hl⟩ : ∃ l, (leftOf env setOrder r force)[i]? = some l := by simp [getElem?_leftOf, hs]
  obtain ⟨t, ht, hless, -⟩ := leftOf_less hl
  obtain rfl := Option.some.inj (hs.symm.trans ht)
  exact ⟨l, hl, hless⟩

lemma Keeps.left {i v : ℕ} (h : Keeps env setOrder r force i v) :
    ∃ l, (leftOf env setOrder r force)[i]? = some l ∧ v ∈ l.numbers env := by
  obtain ⟨s, hs, -⟩ := holdsNumber_iff.mp h.1
  obtain ⟨l, hl, -⟩ : ∃ l, (leftOf env setOrder r force)[i]? = some l ∧
    Subreq.Less s l := exists_left hs
  exact ⟨l, hl, (mem_numbers_iff_keeps hl).mpr h⟩

/-- Place `j` of the result has what is left of the sub-requirement at `i`. -/
structure Placed (env : Env) (setOrder : ℕ → ℕ → Bool) (r : Result)
    (force : Bool) (r₁ : Result) (i j : ℕ) (l : Subreq) : Prop where
  left : (leftOf env setOrder r force)[i]? = some l
  result : r₁.subreqs[j]? = some l
  stays : Overlapping env r → l.numbers env ≠ []
  same : ¬ Overlapping env r → i = j

lemma Resolved.placed_of_result (h : Resolved env setOrder r force r₁) {j : ℕ} {l : Subreq}
    (hj : r₁.subreqs[j]? = some l) : ∃ i, Placed env setOrder r force r₁ i j l := by
  rcases h.subreqs with ⟨heq, hov⟩ | ⟨heq, hov⟩
  · exact ⟨j, heq ▸ hj, hj, fun ho => absurd ho hov, fun _ => rfl⟩
  · obtain ⟨hmem, hne⟩ := List.mem_filter.mp (heq ▸ List.mem_of_getElem? hj)
    obtain ⟨i, hi⟩ := List.mem_iff_getElem?.mp hmem
    exact ⟨i, hi, hj, fun _ => by simpa using hne, fun hn => absurd hov hn⟩

lemma Resolved.placed_of_left (h : Resolved env setOrder r force r₁) {i : ℕ} {l : Subreq}
    (hi : (leftOf env setOrder r force)[i]? = some l)
    (hl : Overlapping env r → l.numbers env ≠ []) :
    ∃ j, Placed env setOrder r force r₁ i j l := by
  rcases h.subreqs with ⟨heq, hov⟩ | ⟨heq, hov⟩
  · exact ⟨i, hi, heq ▸ hi, hl, fun _ => rfl⟩
  · have hmem : l ∈ r₁.subreqs :=
      heq ▸ List.mem_filter.mpr ⟨List.mem_of_getElem? hi, by simpa using hl hov⟩
    obtain ⟨j, hj⟩ := List.mem_iff_getElem?.mp hmem
    exact ⟨j, hi, hj, hl, fun hn => absurd hov hn⟩

/-- The tail pass marks the place of the tail. -/
lemma Placed.unfinished_iff (h : Resolved env setOrder r force r₁)
    (ht : enforceTerminalTail env terminal r₁ = .ok r')
    {i j : ℕ} {l s' : Subreq} (hp : Placed env setOrder r force r₁ i j l)
    (hs' : r'.subreqs[j]? = some s') :
    s'.status = unfinished ↔ terminal = false ∧ IsTail env setOrder r force i := by
  obtain ⟨htail, -, ids, -, hset, hzero⟩ := enforceTerminalTail_spec ht
  have hresult {k : ℕ} {t : Subreq} (hk : r'.subreqs[k]? = some t) :
      ∃ u, r₁.subreqs[k]? = some u ∧ t.numbers env = u.numbers env := by
    obtain ⟨u, hu, hsu⟩ := forall₂_getElem? hset.flip hk
    exact ⟨u, hu, hsu.numbers⟩
  have hnum : s'.numbers env = l.numbers env := by
    obtain ⟨u, hu, hnum⟩ := hresult hs'
    rwa [Option.some.inj (hu.symm.trans hp.result)] at hnum
  cases terminal with
  | true => exact iff_of_false (htail s' (List.mem_of_getElem? hs')) (by simp)
  | false =>
    obtain ⟨k, t, hk, htun, hmax, huniq⟩ := htail (List.ne_nil_of_mem (List.mem_of_getElem? hs'))
    rw [eq_self, true_and]
    constructor
    · intro hun
      obtain rfl := huniq j s' hs' hun
      obtain rfl := Option.some.inj (hs'.symm.trans hk)
      have hkept {i' w : ℕ} (hw : Keeps env setOrder r force i' w) : w < maxIdx env s' := by
        obtain ⟨l', hl', hwl⟩ := hw.left
        obtain ⟨j', hp'⟩ := h.placed_of_left hl' fun _ => List.ne_nil_of_mem hwl
        obtain ⟨u, hu, hsu⟩ := forall₂_getElem? hset hp'.result
        exact maxIdx_le.mp (hmax u (List.mem_of_getElem? hu)) w (hsu.numbers ▸ hwl)
      cases hn : maxIdx env s' with
      | zero =>
        have hnone (i' w : ℕ) : ¬ Keeps env setOrder r force i' w :=
          fun hw => by simpa [hn] using hkept hw
        have hnil {i' j' : ℕ} {u : Subreq} (hp' : Placed env setOrder r force r₁ i' j' u) :
          u.numbers env = [] :=
          List.eq_nil_iff_forall_not_mem.mpr fun w hw =>
            hnone i' w ((mem_numbers_iff_keeps hp'.left).mp hw)
        refine .inr ⟨?_, hnone⟩
        rw [hp.same fun hov => hp.stays hov (hnil hp)]
        refine hzero (fun u hu => ?_) j s' hs' hun
        obtain ⟨j', hj'⟩ := List.mem_iff_getElem?.mp hu
        obtain ⟨i', hp'⟩ := h.placed_of_result hj'
        exact hnil hp'
      | succ n =>
        obtain ⟨v, hv, hnv⟩ : ∃ v ∈ s'.numbers env, n ≤ v := by
          have hlt : ¬ maxIdx env s' ≤ n := by omega
          rw [maxIdx_le] at hlt
          simpa using hlt
        refine .inl ⟨v, (mem_numbers_iff_keeps hp.left).mp (hnum ▸ hv), fun i' w hw => ?_⟩
        have := hkept hw
        omega
    · intro htl
      suffices hjk : j = k by
        subst hjk
        rwa [Option.some.inj (hs'.symm.trans hk)]
      obtain ⟨u, hu, htu⟩ := hresult hk
      obtain ⟨i', hp'⟩ := h.placed_of_result hu
      rcases htl with ⟨v, hv, hall⟩ | ⟨rfl, hnone⟩
      · have hvl := (mem_numbers_iff_keeps hp.left).mpr hv
        have hlt : v < maxIdx env t :=
          (maxIdx_le.mp le_rfl v (hnum ▸ hvl)).trans_le (hmax s' (List.mem_of_getElem? hs'))
        obtain ⟨w, hw, hvw⟩ : ∃ w ∈ t.numbers env, v ≤ w := by
          by_contra hno
          have hless : ∀ w ∈ t.numbers env, w < v := fun w hw =>
            lt_of_not_ge fun hvw => hno ⟨w, hw, hvw⟩
          exact absurd (maxIdx_le.mpr hless) (by omega)
        rw [htu] at hw
        obtain rfl : v = w := le_antisymm hvw (hall i' w ((mem_numbers_iff_keeps hp'.left).mp hw))
        have hj : holdsNumber env r₁.subreqs v j = true := holdsNumber_iff.mpr ⟨l, hp.result, hvl⟩
        have hk : holdsNumber env r₁.subreqs v k = true := holdsNumber_iff.mpr ⟨u, hu, hw⟩
        rcases lt_trichotomy j k with hlt | heq | hlt
        · exact (exclusive_iff.mp h.exclusive j k v hlt hj hk).elim
        · exact heq
        · exact (exclusive_iff.mp h.exclusive k j v hlt hk hj).elim
      · have hnil {i' j' : ℕ} {u : Subreq} (hp' : Placed env setOrder r force r₁ i' j' u) :
          u.numbers env = [] :=
          List.eq_nil_iff_forall_not_mem.mpr fun w hw =>
            hnone i' w ((mem_numbers_iff_keeps hp'.left).mp hw)
        rw [← hp.same fun hov => hp.stays hov (hnil hp)]
        refine (hzero (fun u hu => ?_) k t hk htun).symm
        obtain ⟨j', hj'⟩ := List.mem_iff_getElem?.mp hu
        obtain ⟨i', hp'⟩ := h.placed_of_result hj'
        exact hnil hp'

lemma good_iff_spared (h : Resolved env setOrder r force r₁) {i : ℕ} {s l : Subreq}
    (hs : r.subreqs[i]? = some s) (hl : (leftOf env setOrder r force)[i]? = some l) :
    Good env rows r₁.edges l ↔ SparedAt env setOrder r force rows i s := by
  obtain ⟨t, ht, hless, -⟩ := leftOf_less hl
  obtain rfl := Option.some.inj (hs.symm.trans ht)
  refine Iff.trans (and_congr ?_ ?_) ⟨fun h => ⟨h.1, h.2⟩, fun h => ⟨h.rollback, h.status⟩⟩
  · rw [isRollback, hless.status, hless.type, ← isRollback, StartsWithUser]
    simp only [mem_numbers_iff_keeps hl]
  · have hfew : (l.numbers env).dedup.length < 2 ↔
        ∀ v w, Keeps env setOrder r force i v → Keeps env setOrder r force i w → v = w := by
      rw [← List.card_toFinset, Nat.lt_succ_iff, Finset.card_le_one]
      simp only [List.mem_toFinset, mem_numbers_iff_keeps hl]
      exact ⟨fun hall v w hv hw => hall v hv w hw, fun hall v hv w hw => hall v w hv hw⟩
    have hends (e : Edge) : (∀ t ∈ leftOf env setOrder r force, t.idOf = e.src ∨
        t.idOf = e.dst → t.numbers env ≠ []) ↔
          ∀ (j : ℕ) (t : Subreq), r.subreqs[j]? = some t → t.idOf = e.src ∨ t.idOf = e.dst →
            ∃ v, Keeps env setOrder r force j v := by
      constructor
      · intro hall j t ht hid
        obtain ⟨l', hl', hless'⟩ := exists_left ht
        obtain ⟨v, hv⟩ :=
          List.exists_mem_of_ne_nil _ (hall l' (List.mem_of_getElem? hl') (by rwa [hless'.idOf]))
        exact ⟨v, (mem_numbers_iff_keeps hl').mp hv⟩
      · intro hall t ht hid
        obtain ⟨j, hj⟩ := List.mem_iff_getElem?.mp ht
        obtain ⟨u, hu, hless', -⟩ := leftOf_less hj
        obtain ⟨v, hv⟩ := hall j u hu (by rwa [hless'.idOf] at hid)
        exact List.ne_nil_of_mem ((mem_numbers_iff_keeps hj).mpr hv)
    rw [hfew, hless.status, hless.idOf, Touched, imp.swap]
    refine imp_congr_right fun _ => imp_congr_right fun _ => exists_congr fun e => ?_
    simp only [← hends]
    constructor
    · rintro ⟨he, hre, hid⟩
      obtain ⟨he, hkept⟩ := (h.edges e hre).mp he
      exact ⟨he, hre, hid, hkept⟩
    · rintro ⟨he, hre, hid, hkept⟩
      exact ⟨(h.edges e hre).mpr ⟨he, hkept⟩, hre, hid⟩

end Places

end Contract

def subreqOf (id : String) (status : Json) (members : List ℕ) : Subreq :=
  ⟨some (.str (py id)), some (.str (py "step")), .str (py "主线"), status, members.map .num⟩

/-- The first sub-requirement was reworked in its second message, which the next one lists too. -/
def sharedRework : Result := ⟨[subreqOf "S1" reworked [1, 2], subreqOf "S2" passed [2, 3]], []⟩

def laterRework : Result := ⟨[subreqOf "S1" passed [1, 2], subreqOf "S2" reworked [2, 3]], []⟩

end AgentTrajectory.LlmDecompose
