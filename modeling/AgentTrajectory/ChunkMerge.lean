import AgentTrajectory.MessageNumbering
import AgentTrajectory.RelatedLists

/-! The chunk merge of `decompose_one_task`. The indexes of a chunk are shifted by the lines
before it without a look at their range, so the merged numbers keep to the chunk they come
from exactly if the answer on every chunk keeps to its own list. -/
namespace AgentTrajectory.DecomposeTask
open PyText PyDict PyJson PyValue TaskStitch LlmDecompose RouteDay RelatedLists

variable {chunks : List (List DayEvent)} {chunk : List DayEvent}

section Merge
variable {d : Display} {setOrder : ℕ → ℕ → Bool} {answers : ℕ → List (Except PyError Result)}

/-- What `_one` leaves of the answers on a list. -/
def answeredSubreqs (d : Display) (setOrder : ℕ → ℕ → Bool) (list : List DayEvent)
    (attempts : List (Except PyError Result)) : List Subreq :=
  match one d setOrder list attempts with
  | .ok res => res.1.subreqs
  | .error _ => []

/-- For every merged sub-requirement the number of the chunk it comes from. -/
def origins (d : Display) (setOrder : ℕ → ℕ → Bool) (answers : ℕ → List (Except PyError Result)) (c : ℕ) :
    List (List DayEvent) → List ℕ
  | [] => []
  | chunk :: chunks =>
      List.replicate (answeredSubreqs d setOrder chunk (answers c)).length c ++
        origins d setOrder answers (c + 1) chunks

def shiftedSubreqs (d : Display) (setOrder : ℕ → ℕ → Bool) (answers : ℕ → List (Except PyError Result))
    (c offset : ℕ) : List (List DayEvent) → List Subreq
  | [] => []
  | chunk :: chunks =>
      (answeredSubreqs d setOrder chunk (answers c)).map (shiftSubreq d (c + 1) offset) ++
        shiftedSubreqs d setOrder answers (c + 1) (offset + (buildTranscript d chunk).rows.length) chunks

/-- The members lie in the range of chunk `c` in the whole task. -/
def InRange (d : Display) (chunks : List (List DayEvent)) (c : ℕ) (members : List Member) : Prop :=
  ∀ x ∈ members, ∃ v, asSegInt d.env x = some v ∧ linesBefore d chunks c < v ∧ v ≤ linesBefore d chunks (c + 1)

/-- The members are numbers of the lines of a list. -/
def NumbersLines (d : Display) (list : List DayEvent) (members : List Member) : Prop :=
  ∀ x ∈ members, ∃ j, asSegInt d.env x = some j ∧ 0 < j ∧ j ≤ (buildTranscript d list).rows.length

lemma mergeFrom_subreqs {c offset : ℕ} {merged : Result} {res : Result × ℕ}
    (h : mergeFrom d setOrder answers c offset merged chunks = .ok res) :
    res.1.subreqs = merged.subreqs ++ shiftedSubreqs d setOrder answers c offset chunks := by
  induction chunks generalizing c offset merged with
  | nil =>
    obtain rfl := Except.ok.inj h
    simp [shiftedSubreqs]
  | cons chunk chunks ih =>
    obtain ⟨out, hout, h⟩ := bind_eq_ok.mp h
    obtain ⟨merged', hmerge, h⟩ := bind_eq_ok.mp h
    obtain ⟨r, -, hr⟩ := map_eq_ok.mp hout
    rw [mergeChunk] at hmerge
    split_ifs at hmerge
    obtain ⟨edges, -, hmerge⟩ := bind_eq_ok.mp hmerge
    obtain rfl := Except.ok.inj hmerge
    rw [ih h, shiftedSubreqs, answeredSubreqs, hout, ← hr, List.append_assoc]

lemma linesBefore_succ (chunk : List DayEvent) (chunks : List (List DayEvent)) (k : ℕ) :
    linesBefore d (chunk :: chunks) (k + 1) = (buildTranscript d chunk).rows.length + linesBefore d chunks k := by
  simp [linesBefore]

lemma asSegInt_num (env : Env) (n : ℕ) : asSegInt env (.num n) = some n := rfl

lemma shifted_in_range {x : Member} {offset : ℕ} :
    (∃ v, asSegInt d.env (.num ((asSegInt d.env x).getD 0 + offset)) = some v ∧ offset < v ∧
        v ≤ offset + (buildTranscript d chunk).rows.length) ↔
      ∃ j, asSegInt d.env x = some j ∧ 0 < j ∧ j ≤ (buildTranscript d chunk).rows.length := by
  simp only [asSegInt_num, Option.some.injEq, exists_eq_left']
  cases asSegInt d.env x with
  | none => simp
  | some j =>
    simp only [Option.getD_some, Option.some.injEq, exists_eq_left']
    omega

/-- Where the ranges begin, from chunk `c` on. -/
def BeginsAt (d : Display) (bound : ℕ → ℕ) (c offset : ℕ) (chunks : List (List DayEvent)) : Prop :=
  ∀ k ≤ chunks.length, bound (c + k) = offset + linesBefore d chunks k

lemma BeginsAt.tail {bound : ℕ → ℕ} {c offset : ℕ}
    (h : BeginsAt d bound c offset (chunk :: chunks)) :
    BeginsAt d bound (c + 1) (offset + (buildTranscript d chunk).rows.length) chunks := by
  intro k hk
  rw [show c + 1 + k = c + (k + 1) by omega, h (k + 1) (by simpa using hk), linesBefore_succ]
  omega

lemma forall_getElem?_cons {α : Type*} {a : α} {l : List α} {P : ℕ → α → Prop} :
    (∀ k b, (a :: l)[k]? = some b → P k b) ↔ P 0 a ∧ ∀ k b, l[k]? = some b → P (k + 1) b := by
  constructor
  · exact fun h => ⟨h 0 a rfl, fun k b hk => h (k + 1) b hk⟩
  · rintro ⟨hzero, hsucc⟩ k b hk
    cases k with
    | zero =>
      obtain rfl : a = b := by simpa using hk
      exact hzero
    | succ k => exact hsucc k b hk

/-- The answers from chunk `c` on keep to the lists they are given for. -/
def WithinChunks (d : Display) (setOrder : ℕ → ℕ → Bool) (answers : ℕ → List (Except PyError Result)) (c : ℕ)
    (chunks : List (List DayEvent)) : Prop :=
  ∀ k chunk, chunks[k]? = some chunk →
    ∀ s ∈ answeredSubreqs d setOrder chunk (answers (c + k)), NumbersLines d chunk s.memberIdx

lemma withinChunks_cons {c : ℕ} :
    WithinChunks d setOrder answers c (chunk :: chunks) ↔
      (∀ s ∈ answeredSubreqs d setOrder chunk (answers c), NumbersLines d chunk s.memberIdx) ∧
        WithinChunks d setOrder answers (c + 1) chunks := by
  rw [WithinChunks, forall_getElem?_cons, WithinChunks, Nat.add_zero]
  refine and_congr_right fun _ => forall_congr' fun k => ?_
  rw [Nat.add_right_comm c 1 k, Nat.add_assoc c k 1]

lemma shiftedSubreqs_in_range_iff {bound : ℕ → ℕ} {c offset : ℕ}
    (hbound : BeginsAt d bound c offset chunks) :
    List.Forall₂ (fun k s => ∀ x ∈ s.memberIdx, ∃ v, asSegInt d.env x = some v ∧ bound k < v ∧ v ≤ bound (k + 1))
        (origins d setOrder answers c chunks) (shiftedSubreqs d setOrder answers c offset chunks) ↔
      WithinChunks d setOrder answers c chunks := by
  induction chunks generalizing c offset with
  | nil => simp [origins, shiftedSubreqs, WithinChunks]
  | cons chunk chunks ih =>
    have hc : bound c = offset := by simpa [linesBefore] using hbound 0 (by simp)
    have hnext : bound (c + 1) = offset + (buildTranscript d chunk).rows.length := by
      rw [hbound 1 (by simp), linesBefore_succ]
      simp [linesBefore]
    rw [origins, shiftedSubreqs, forall₂_append (by simp), ih hbound.tail, withinChunks_cons,
      List.forall₂_map_right_iff, forall₂_replicate, hc, hnext]
    refine and_congr_left fun _ => forall₂_congr fun s _ => ?_
    simp only [shiftSubreq, List.forall_mem_map, shifted_in_range, NumbersLines]

lemma numbers_shiftSubreq {s : Subreq} {ci offset : ℕ} (h : NumbersLines d chunk s.memberIdx) :
    (shiftSubreq d ci offset s).numbers d.env = (s.numbers d.env).map (· + offset) := by
  rw [Subreq.numbers, shiftSubreq, Subreq.numbers, List.filterMap_map, List.map_filterMap]
  refine List.filterMap_congr fun x hx => ?_
  obtain ⟨j, hj, -⟩ := h x hx
  simp [hj, asSegInt_num]

lemma exclusive_shifted {subs : List Subreq} {ci offset : ℕ}
    (hin : ∀ s ∈ subs, NumbersLines d chunk s.memberIdx) (h : Exclusive d.env subs) :
    Exclusive d.env (subs.map (shiftSubreq d ci offset)) := by
  rw [Exclusive, List.pairwise_map]
  refine List.Pairwise.imp_of_mem (fun {s t} hs ht hst => ?_) h
  rw [numbers_shiftSubreq (hin s hs), numbers_shiftSubreq (hin t ht)]
  intro v hv hw
  obtain ⟨i, hi, rfl⟩ := List.mem_map.mp hv
  obtain ⟨j, hj, hij⟩ := List.mem_map.mp hw
  obtain rfl : j = i := Nat.add_right_cancel hij
  exact hst hi hj

lemma NumbersLines.bounds {s : Subreq} (h : NumbersLines d chunk s.memberIdx) {v : ℕ}
    (hv : v ∈ s.numbers d.env) : 0 < v ∧ v ≤ (buildTranscript d chunk).rows.length := by
  obtain ⟨x, hx, hxv⟩ := List.mem_filterMap.mp hv
  obtain ⟨j, hj, hpos, hle⟩ := h x hx
  obtain rfl : j = v := Option.some.inj (hj.symm.trans hxv)
  exact ⟨hpos, hle⟩

lemma lt_of_mem_shiftedSubreqs {c offset : ℕ} (hin : WithinChunks d setOrder answers c chunks) :
    ∀ s ∈ shiftedSubreqs d setOrder answers c offset chunks, ∀ v ∈ s.numbers d.env, offset < v := by
  induction chunks generalizing c offset with
  | nil => simp [shiftedSubreqs]
  | cons chunk chunks ih =>
    obtain ⟨hhead, htail⟩ := withinChunks_cons.mp hin
    intro s hs v hv
    rcases List.mem_append.mp hs with hs | hs
    · obtain ⟨t, ht, rfl⟩ := List.mem_map.mp hs
      rw [numbers_shiftSubreq (hhead t ht)] at hv
      obtain ⟨j, hj, rfl⟩ := List.mem_map.mp hv
      have := (hhead t ht).bounds hj
      omega
    · have := ih htail s hs v hv
      omega

lemma exclusive_answeredSubreqs (list : List DayEvent) (attempts : List (Except PyError Result)) :
    Exclusive d.env (answeredSubreqs d setOrder list attempts) := by
  rw [answeredSubreqs]
  cases hone : one d setOrder list attempts with
  | error e => exact List.Pairwise.nil
  | ok res =>
    obtain ⟨r, hr, rfl⟩ := map_eq_ok.mp hone
    exact oneLoop_exclusive hr

lemma exclusive_shiftedSubreqs {c offset : ℕ} (hin : WithinChunks d setOrder answers c chunks) :
    Exclusive d.env (shiftedSubreqs d setOrder answers c offset chunks) := by
  induction chunks generalizing c offset with
  | nil => exact List.Pairwise.nil
  | cons chunk chunks ih =>
    obtain ⟨hhead, htail⟩ := withinChunks_cons.mp hin
    refine List.pairwise_append.mpr
      ⟨exclusive_shifted hhead (exclusive_answeredSubreqs _ _), ih htail, fun s hs t ht v hv hw => ?_⟩
    obtain ⟨u, hu, rfl⟩ := List.mem_map.mp hs
    rw [numbers_shiftSubreq (hhead u hu)] at hv
    obtain ⟨j, hj, rfl⟩ := List.mem_map.mp hv
    have hlow := (hhead u hu).bounds hj
    have hhigh := lt_of_mem_shiftedSubreqs htail t ht _ hw
    omega

/-- The members of the merged result lie in the ranges of their chunks and no number is held
twice exactly if every member that `_one` leaves for a chunk is the number of one of its
lines. -/
theorem merged_members_in_range_iff (d : Display) (setOrder : ℕ → ℕ → Bool) (bigThreshold chunkTarget : ℕ)
    (cluster : List DayEvent) (answers : ℕ → List (Except PyError Result)) (terminal : Bool) (res : Result × ℕ)
    (hbig : bigThreshold < (effectiveEvents d cluster).length)
    (h : decomposeOneTask d setOrder bigThreshold chunkTarget cluster answers terminal = .ok res) :
    (List.Forall₂ (fun c s => InRange d (splitByGaps (effectiveEvents d cluster) chunkTarget) c s.memberIdx)
        (origins d setOrder answers 0 (splitByGaps (effectiveEvents d cluster) chunkTarget)) res.1.subreqs ∧
      Exclusive d.env res.1.subreqs) ↔
      ∀ c chunk, (splitByGaps (effectiveEvents d cluster) chunkTarget)[c]? = some chunk →
        ∀ s ∈ answeredSubreqs d setOrder chunk (answers c), NumbersLines d chunk s.memberIdx := by
  obtain ⟨mid, hmid, h⟩ := bind_eq_ok.mp h
  obtain ⟨r, htail, h⟩ := bind_eq_ok.mp h
  obtain rfl := Except.ok.inj h
  rw [gather, if_neg (not_le.mpr hbig)] at hmid
  have hsubs := mergeFrom_subreqs hmid
  rw [List.nil_append] at hsubs
  obtain ⟨-, -, ids, -, hsettled, -⟩ := enforceTerminalTail_spec htail
  have hmembers : r.subreqs.map Subreq.memberIdx = mid.1.subreqs.map Subreq.memberIdx :=
    forall₂_map_eq hsettled fun _ _ hst => hst.members
  generalize splitByGaps (effectiveEvents d cluster) chunkTarget = chunks at hsubs ⊢
  have hbound : BeginsAt d (linesBefore d chunks) 0 0 chunks := fun k _ => by simp
  have hrange : List.Forall₂ (fun c s => InRange d chunks c s.memberIdx) (origins d setOrder answers 0 chunks)
      r.subreqs ↔ WithinChunks d setOrder answers 0 chunks := by
    rw [← List.forall₂_map_right_iff (R := InRange d chunks), hmembers, hsubs, List.forall₂_map_right_iff]
    exact shiftedSubreqs_in_range_iff hbound
  have hwithin : WithinChunks d setOrder answers 0 chunks ↔ ∀ c chunk, chunks[c]? = some chunk →
      ∀ s ∈ answeredSubreqs d setOrder chunk (answers c), NumbersLines d chunk s.memberIdx := by
    simp only [WithinChunks, Nat.zero_add]
  rw [hrange, ← hwithin, and_iff_left_iff_imp]
  intro hin
  refine exclusive_of_settled hsettled ?_
  rw [hsubs]
  exact exclusive_shiftedSubreqs hin

end Merge

instance (d : Display) (chunks : List (List DayEvent)) (c : ℕ) (members : List Member) :
    Decidable (InRange d chunks c members) :=
  decidable_of_iff (∀ x ∈ members, ((asSegInt d.env x).any fun v =>
    decide (linesBefore d chunks c < v) && decide (v ≤ linesBefore d chunks (c + 1))) = true) (by
      simp only [InRange, Option.any_eq_true, Bool.and_eq_true, decide_eq_true_eq])

theorem merged_members_in_range_iff_chunkAnswers :
    ∃ res, decomposeOneTask plainDisplay (fun _ _ => true) 1 2 noisyCluster chunkAnswers true = .ok res ∧
      List.Forall₂ (fun c s => InRange plainDisplay
          (splitByGaps (effectiveEvents plainDisplay noisyCluster) 2) c s.memberIdx)
        (origins plainDisplay (fun _ _ => true) chunkAnswers 0
          (splitByGaps (effectiveEvents plainDisplay noisyCluster) 2)) res.1.subreqs ∧
      Exclusive plainDisplay.env res.1.subreqs := by
  obtain ⟨res, hres, -⟩ := ok_of_toOption
    (show ∃ res ∈ (decomposeOneTask plainDisplay (fun _ _ => true) 1 2 noisyCluster chunkAnswers true).toOption,
      True by decide +kernel)
  refine ⟨res, hres, (merged_members_in_range_iff plainDisplay (fun _ _ => true) 1 2 noisyCluster chunkAnswers true
    res (by decide +kernel) hres).mpr fun c chunk hchunk => ?_⟩
  have hall : ∀ p ∈ (splitByGaps (effectiveEvents plainDisplay noisyCluster) 2).zipIdx,
      ∀ s ∈ answeredSubreqs plainDisplay (fun _ _ => true) p.1 (chunkAnswers p.2),
        ∀ x ∈ s.memberIdx, ∃ j ∈ asSegInt plainDisplay.env x,
          0 < j ∧ j ≤ (buildTranscript plainDisplay p.1).rows.length := by decide +kernel
  exact hall (chunk, c) (List.mem_zipIdx_iff_getElem?.mpr hchunk)

/-- The first chunk has two messages, and its answer names a third. -/
def strayAnswers : ℕ → List (Except PyError Result)
  | 0 => [.ok (answerWith (.num 3))]
  | 1 => [.ok (answerWith (.num 1))]
  | _ => []

/-- The first chunk's answer lands on the message of the second. -/
theorem stray_index_lands_in_next_chunk :
    ∃ res, decomposeOneTask plainDisplay (fun _ _ => true) 1 2 noisyCluster strayAnswers true = .ok res ∧
      origins plainDisplay (fun _ _ => true) strayAnswers 0
        (splitByGaps (effectiveEvents plainDisplay noisyCluster) 2) = [0, 1] ∧
      res.1.subreqs.map (Subreq.numbers plainDisplay.env) = [[3], [3]] ∧
      ¬ (∀ s ∈ res.1.subreqs.head?, InRange plainDisplay
        (splitByGaps (effectiveEvents plainDisplay noisyCluster) 2) 0 s.memberIdx) ∧
      ¬ Exclusive plainDisplay.env res.1.subreqs :=
  ok_of_toOption (by decide +kernel)

end AgentTrajectory.DecomposeTask
