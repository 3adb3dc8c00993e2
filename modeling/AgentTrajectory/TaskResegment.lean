import AgentTrajectory.PyText

/-! `task_resegment.py`: the offline cut of a task into segments by gaps and by topics that
persist, with the check that the segments restore the stream. -/
namespace AgentTrajectory.TaskResegment
open PyText

structure Row where
  ts : ℤ
  topic : PyStr
  bot : PyStr
  msgId : PyStr
  text : PyStr
  deriving DecidableEq

structure Segment where
  topic : PyStr
  rows : List Row
  start : ℤ
  deriving DecidableEq

def noiseTopics : List PyStr := [py "闲聊", [], py "-"]

/-- The loop of `smooth_topic`: a noise topic inherits the last one that is not. -/
def smoothFrom (last : PyStr) : List Row → List PyStr
  | [] => []
  | r :: rows =>
      let t := if r.topic ∈ noiseTopics then last else r.topic
      t :: smoothFrom t rows

def smoothTopic (rows : List Row) : List PyStr := smoothFrom (py "-") rows

/-- The assertions of `verify_partition`, with the numbers their texts show. -/
inductive PartitionError
  | coverage (rows flat : ℕ) (missing : ℤ) (repeated segs : ℕ)
  | emptySegment (k : ℕ)
  | rowsBackwards (k i : ℕ) (ts prev : ℤ)
  | segmentsBackwards (k : ℕ) (ts lastStart : ℤ)
  deriving DecidableEq

def checkEmpty (k : ℕ) : List Segment → Except PartitionError Unit
  | [] => .ok ()
  | s :: segs => if s.rows.isEmpty then .error (.emptySegment k) else checkEmpty (k + 1) segs

def checkRows (k i : ℕ) (prev : ℤ) : List ℤ → Except PartitionError Unit
  | [] => .ok ()
  | t :: ts => if t < prev then .error (.rowsBackwards k i t prev) else checkRows k (i + 1) t ts

def checkOrder (k : ℕ) (lastStart : Option ℤ) : List Segment → Except PartitionError Unit
  | [] => .ok ()
  | s :: segs =>
      match s.rows.map Row.ts with
      | [] => checkOrder (k + 1) lastStart segs
      | t :: ts => do
          checkRows k 1 t ts
          match lastStart with
          | some last => if t < last then .error (.segmentsBackwards k t last) else .ok ()
          | none => .ok ()
          checkOrder (k + 1) (some t) segs

def verifyPartition (rows : List Row) (segs : List Segment) : Except PartitionError Unit := do
  let flat := segs.flatMap Segment.rows
  if flat ≠ rows then
    .error (.coverage rows.length flat.length ((rows.length : ℤ) - flat.length)
      (flat.length - flat.dedup.length) segs.length)
  checkEmpty 0 segs
  checkOrder 0 none segs

def topicOpens (cur tp : PyStr) (rest : List PyStr) : Prop :=
  tp ≠ cur ∧ tp ∉ noiseTopics ∧ rest.head?.getD tp = tp

instance (cur tp : PyStr) (rest : List PyStr) : Decidable (topicOpens cur tp rest) :=
  inferInstanceAs (Decidable (_ ∧ _ ∧ _))

/-- The loop of `segment`; without a boundary the running topic follows the row. -/
def cutFrom (gapSec prev : ℤ) (cur : Segment) : List (Row × PyStr) → List Segment
  | [] => [cur]
  | (r, tp) :: rest =>
      if gapSec ≤ r.ts - prev ∨ topicOpens cur.topic tp (rest.map Prod.snd) then
        cur :: cutFrom gapSec r.ts ⟨tp, [r], r.ts⟩ rest
      else cutFrom gapSec r.ts { cur with topic := tp, rows := cur.rows ++ [r] } rest

def cutRows (gapSec : ℤ) (rows : List Row) : List Segment :=
  match rows.zip (smoothTopic rows) with
  | [] => []
  | (r, tp) :: rest => cutFrom gapSec r.ts ⟨tp, [r], r.ts⟩ rest

def segment (gapSec : ℤ) (rows : List Row) : Except PartitionError (List Segment) := do
  let segs := cutRows gapSec rows
  verifyPartition rows segs
  return segs

lemma smoothFrom_length (last : PyStr) (rows : List Row) :
    (smoothFrom last rows).length = rows.length := by
  induction rows generalizing last with
  | nil => rfl
  | cons r rows ih => simp [smoothFrom, ih]

lemma cutFrom_rows (gapSec prev : ℤ) (cur : Segment) (l : List (Row × PyStr)) :
    (cutFrom gapSec prev cur l).flatMap Segment.rows = cur.rows ++ l.map Prod.fst := by
  induction l generalizing prev cur with
  | nil => simp [cutFrom]
  | cons x l ih =>
    obtain ⟨r, tp⟩ := x
    rw [cutFrom]
    split_ifs
    · simp [ih]
    · simp [ih]

lemma cutRows_rows (gapSec : ℤ) (rows : List Row) :
    (cutRows gapSec rows).flatMap Segment.rows = rows := by
  have hzip : (rows.zip (smoothTopic rows)).map Prod.fst = rows :=
    List.map_fst_zip (smoothFrom_length _ rows).ge
  rw [cutRows]
  cases h : rows.zip (smoothTopic rows) with
  | nil => rw [h] at hzip; simpa using hzip
  | cons x rest =>
    obtain ⟨r, tp⟩ := x
    rw [h] at hzip
    simpa [cutFrom_rows] using hzip

lemma cutFrom_rows_ne_nil (gapSec prev : ℤ) (cur : Segment) (l : List (Row × PyStr))
    (hcur : cur.rows ≠ []) : ∀ s ∈ cutFrom gapSec prev cur l, s.rows ≠ [] := by
  induction l generalizing prev cur with
  | nil => simpa [cutFrom] using hcur
  | cons x l ih =>
    obtain ⟨r, tp⟩ := x
    rw [cutFrom]
    split_ifs
    · exact List.forall_mem_cons.mpr ⟨hcur, ih _ _ (by simp)⟩
    · exact ih _ _ (by simp)

lemma cutRows_rows_ne_nil (gapSec : ℤ) (rows : List Row) :
    ∀ s ∈ cutRows gapSec rows, s.rows ≠ [] := by
  rw [cutRows]
  split
  · simp
  · exact cutFrom_rows_ne_nil _ _ _ _ (by simp)

lemma checkEmpty_ok (k : ℕ) {segs : List Segment} (h : ∀ s ∈ segs, s.rows ≠ []) :
    checkEmpty k segs = .ok () := by
  induction segs generalizing k with
  | nil => rfl
  | cons s segs ih =>
    obtain ⟨hs, hsegs⟩ := List.forall_mem_cons.mp h
    simp [checkEmpty, hs, ih (k + 1) hsegs]

lemma checkRows_ok (k i : ℕ) {prev : ℤ} {ts : List ℤ} (h : (prev :: ts).Pairwise (· ≤ ·)) :
    checkRows k i prev ts = .ok () := by
  induction ts generalizing i prev with
  | nil => rfl
  | cons t ts ih =>
    obtain ⟨hprev, hts⟩ := List.pairwise_cons.mp h
    rw [checkRows, if_neg (not_lt.mpr (hprev t List.mem_cons_self)), ih (i + 1) hts]

lemma checkOrder_ok (k : ℕ) (last : Option ℤ) {segs : List Segment}
    (h : (last.toList ++ (segs.flatMap Segment.rows).map Row.ts).Pairwise (· ≤ ·)) :
    checkOrder k last segs = .ok () := by
  induction segs generalizing k last with
  | nil => rfl
  | cons s segs ih =>
    rw [List.flatMap_cons, List.map_append] at h
    rw [checkOrder]
    cases hts : s.rows.map Row.ts with
    | nil =>
      rw [hts, List.nil_append] at h
      exact ih (k + 1) last h
    | cons t ts =>
      rw [hts, ← List.append_assoc, List.pairwise_append] at h
      obtain ⟨hhead, htail, hcross⟩ := h
      obtain ⟨-, hown, hlast⟩ := List.pairwise_append.mp hhead
      have hrest : ([t] ++ (segs.flatMap Segment.rows).map Row.ts).Pairwise (· ≤ ·) :=
        List.pairwise_cons.mpr ⟨fun a ha => hcross t (by simp) a ha, htail⟩
      simp only [checkRows_ok k 1 hown]
      cases last with
      | none => exact ih (k + 1) (some t) hrest
      | some l =>
        have hle : ¬ t < l := not_lt.mpr (hlast l (by simp) t List.mem_cons_self)
        simp only [if_neg hle]
        exact ih (k + 1) (some t) hrest

theorem segment_eq_ok (gapSec : ℤ) {rows : List Row}
    (hsorted : rows.Pairwise fun a b => a.ts ≤ b.ts) :
    segment gapSec rows = .ok (cutRows gapSec rows) := by
  have hts : ((none : Option ℤ).toList ++
      ((cutRows gapSec rows).flatMap Segment.rows).map Row.ts).Pairwise (· ≤ ·) := by
    rw [cutRows_rows]
    exact List.pairwise_map.mpr hsorted
  simp only [segment, verifyPartition, cutRows_rows, ne_eq, not_true_eq_false, if_false,
    checkEmpty_ok 0 (cutRows_rows_ne_nil gapSec rows), checkOrder_ok 0 none hts]
  rfl

def Calm (cur : PyStr) : List PyStr → Prop
  | [] => True
  | tp :: rest => ¬ topicOpens cur tp rest ∧ Calm tp rest

lemma cutFrom_length_eq_one_iff {gapSec prev : ℤ} (cur : Segment) {l : List (Row × PyStr)}
    (hgap : (prev :: l.map fun x => x.1.ts).IsChain fun a b => b - a < gapSec) :
    (cutFrom gapSec prev cur l).length = 1 ↔ Calm cur.topic (l.map Prod.snd) := by
  induction l generalizing prev cur with
  | nil => simp [cutFrom, Calm]
  | cons x l ih =>
    obtain ⟨r, tp⟩ := x
    rw [List.map_cons, List.isChain_cons_cons] at hgap
    obtain ⟨hr, hgap⟩ := hgap
    rw [cutFrom, List.map_cons, Calm]
    split_ifs with h
    · have hopens := h.resolve_left (not_le.mpr hr)
      have hpos : (cutFrom gapSec r.ts ⟨tp, [r], r.ts⟩ l).length ≠ 0 := by
        intro hzero
        have hrows := cutFrom_rows gapSec r.ts ⟨tp, [r], r.ts⟩ l
        rw [List.length_eq_zero_iff.mp hzero] at hrows
        simp at hrows
      simp only [List.length_cons, hopens, not_true_eq_false, false_and, iff_false]
      omega
    · rw [ih _ hgap]
      simp only [not_or] at h
      simp [h.2]

lemma calm_smoothFrom_iff (last : PyStr) (rows : List Row) :
    Calm last (smoothFrom last rows) ↔ ∀ x ∈ smoothFrom last rows, x = last := by
  induction rows generalizing last with
  | nil => simp [smoothFrom, Calm]
  | cons r rows ih =>
    rw [smoothFrom]
    set t := if r.topic ∈ noiseTopics then last else r.topic with ht
    rw [Calm, ih, List.forall_mem_cons]
    constructor
    · rintro ⟨hopens, hrest⟩
      have hnext : (smoothFrom t rows).head?.getD t = t := by
        cases hs : smoothFrom t rows with
        | nil => rfl
        | cons x xs => exact hrest x (hs ▸ List.mem_cons_self)
      have hlast : t = last := by
        by_contra hne
        have hnoise : r.topic ∉ noiseTopics := fun hn => hne (by rw [ht, if_pos hn])
        refine hopens ⟨hne, ?_, hnext⟩
        rw [ht, if_neg hnoise]
        exact hnoise
      exact ⟨hlast, fun x hx => (hrest x hx).trans hlast⟩
    · rintro ⟨hlast, hrest⟩
      refine ⟨fun hopens => hopens.1 hlast, fun x hx => (hrest x hx).trans hlast.symm⟩

/-- All effective topics are `t` except for single rows inside the list, each between two
rows with topic `t`. -/
def IsolatedBlips (t : PyStr) (eff : List PyStr) : Prop :=
  ∀ i (hi : i < eff.length), eff[i] ≠ t →
    0 < i ∧ eff[i - 1]? = some t ∧ eff[i + 1]? = some t

/-- Over rows without a gap and with isolated blips, one segment comes out exactly when there
is no blip: the row after the last blip opens a segment. -/
theorem segment_single_iff (gapSec : ℤ) (rows : List Row) (t : PyStr)
    (hsorted : rows.Pairwise fun a b => a.ts ≤ b.ts)
    (hgap : (rows.map Row.ts).IsChain fun a b => b - a < gapSec)
    (hblips : IsolatedBlips t (smoothTopic rows)) :
    (∃ s, segment gapSec rows = .ok [s]) ↔ rows ≠ [] ∧ ∀ x ∈ smoothTopic rows, x = t := by
  have hlen : (∃ s, segment gapSec rows = .ok [s]) ↔ (cutRows gapSec rows).length = 1 := by
    rw [segment_eq_ok gapSec hsorted, List.length_eq_one_iff]
    simp only [Except.ok.injEq]
  rw [hlen]
  cases rows with
  | nil => simp [cutRows]
  | cons r rows =>
    have hhead : (smoothTopic (r :: rows)).head? = some t := by
      by_contra hne
      have h0 : 0 < (smoothTopic (r :: rows)).length := by simp [smoothTopic, smoothFrom]
      have hfirst : (smoothTopic (r :: rows))[0] ≠ t := fun he =>
        hne (by rw [List.head?_eq_getElem?, List.getElem?_eq_getElem h0, he])
      exact absurd (hblips 0 h0 hfirst).1 (lt_irrefl 0)
    simp only [smoothTopic, smoothFrom, List.head?_cons, Option.some.injEq] at hhead
    have hzip : (rows.zip (smoothFrom t rows)).map (fun x => x.1.ts) = rows.map Row.ts := by
      have := congrArg (List.map Row.ts) (List.map_fst_zip (smoothFrom_length t rows).ge)
      rwa [List.map_map] at this
    have hsnd : (rows.zip (smoothFrom t rows)).map Prod.snd = smoothFrom t rows :=
      List.map_snd_zip (smoothFrom_length t rows).le
    simp only [cutRows, smoothTopic, smoothFrom, hhead, List.zip_cons_cons, List.forall_mem_cons,
      ne_eq, reduceCtorEq, not_false_eq_true, true_and]
    rw [cutFrom_length_eq_one_iff, hsnd, calm_smoothFrom_iff]
    rwa [hzip]

def sample (ts : ℤ) (topic : PyStr) : Row := ⟨ts, topic, py "bot", [], []⟩

theorem segment_single_uniform :
    ∃ s, segment 1800 [sample 0 (py "清洗"), sample 60 (py "闲聊"), sample 120 (py "清洗")] =
      .ok [s] := by
  refine (segment_single_iff 1800 _ (py "清洗") (by decide +kernel) (by decide +kernel) ?_).mpr
    ⟨by simp, by decide +kernel⟩
  unfold IsolatedBlips
  decide +kernel

/-- One row about something else makes a second segment. -/
theorem blip_opens_segment :
    [sample 0 (py "清洗"), sample 60 (py "运维"), sample 120 (py "清洗")].Pairwise
        (fun a b => a.ts ≤ b.ts) ∧
      ([sample 0 (py "清洗"), sample 60 (py "运维"), sample 120 (py "清洗")].map Row.ts).IsChain
        (fun a b => b - a < 1800) ∧
      IsolatedBlips (py "清洗")
        (smoothTopic [sample 0 (py "清洗"), sample 60 (py "运维"), sample 120 (py "清洗")]) ∧
      segment 1800 [sample 0 (py "清洗"), sample 60 (py "运维"), sample 120 (py "清洗")] =
        .ok [⟨py "运维", [sample 0 (py "清洗"), sample 60 (py "运维")], 0⟩,
          ⟨py "清洗", [sample 120 (py "清洗")], 120⟩] := by
  unfold IsolatedBlips
  decide +kernel

end AgentTrajectory.TaskResegment
