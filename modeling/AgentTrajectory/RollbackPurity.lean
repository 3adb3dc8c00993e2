import AgentTrajectory.DecomposeContract
import AgentTrajectory.PyValue
import AgentTrajectory.RelatedLists

/-! `enforce_rollback_purity` as a whole: on an answer whose ids and titles are strings and
whose members number the messages it returns, keeps the members, their disjointness and the
references of the edges, and leaves nothing for a second application. -/
namespace AgentTrajectory.LlmDecompose
open PyText PyDict PyJson PyValue TaskStitch LlmSegment RelatedLists

variable {env : Env} {rows : List Event}
variable {ss : List Subreq}

/-- The number of one of the messages. -/
def NumbersRow (env : Env) (rows : List Event) (x : Member) : Prop :=
  ∃ v, asSegInt env x = some v ∧ 1 ≤ v ∧ v ≤ rows.length

/-- A sub-requirement that the pass reads without an exception. -/
structure Readable (env : Env) (rows : List Event) (s : Subreq) : Prop where
  id : ∃ i, s.id = some (.str i)
  title : s.title = none ∨ ∃ t, s.title = some (.str t)
  members : ∀ x ∈ s.memberIdx, NumbersRow env rows x

lemma isUserAt_ok {v : ℕ} (hpos : 1 ≤ v) (hle : v ≤ rows.length) : ∃ b, isUserAt rows v = .ok b := by
  rw [isUserAt, if_neg (by omega), List.getElem?_eq_getElem (by omega)]
  exact ⟨_, rfl⟩

lemma splitAtUser_ok {l : List ℕ} (h : ∀ v ∈ l, ∃ b, isUserAt rows v = .ok b) :
    ∃ o, splitAtUser rows l = .ok o := by
  induction l with
  | nil => exact ⟨none, rfl⟩
  | cons idx rest ih =>
    obtain ⟨b, hb⟩ := h idx (by simp)
    rw [splitAtUser, hb]
    cases b with
    | true => exact ⟨_, rfl⟩
    | false =>
      obtain ⟨o, ho⟩ := ih fun v hv => h v (by simp [hv])
      cases o with
      | none => exact ⟨none, by simp [ho]⟩
      | some q => exact ⟨some (idx :: q.1, q.2), by simp [ho]⟩

lemma Readable.isUserAt_ok {s : Subreq} (h : Readable env rows s) :
    ∀ v ∈ s.numbers env, ∃ b, isUserAt rows v = .ok b := by
  intro v hv
  obtain ⟨x, hx, hxv⟩ := List.mem_filterMap.mp hv
  obtain ⟨w, hw, hpos, hle⟩ := h.members x hx
  obtain rfl : w = v := Option.some.inj (hw.symm.trans hxv)
  exact LlmDecompose.isUserAt_ok hpos hle

lemma Readable.rollbackCut_ok {s : Subreq} (h : Readable env rows s) : ∃ o, rollbackCut env rows s = .ok o := by
  obtain ⟨i, hi⟩ := h.id
  obtain ⟨o, ho⟩ := splitAtUser_ok fun v hv => h.isUserAt_ok v ((sorted_numbers_perm env s).mem_iff.mp hv)
  have htitle : ∃ t, s.title.getD (.str []) = .str t := by
    rcases h.title with hnone | ⟨t, ht⟩
    · exact ⟨[], by rw [hnone]; rfl⟩
    · exact ⟨t, by rw [ht]; rfl⟩
  obtain ⟨t, ht⟩ := htitle
  rw [rollbackCut]
  split_ifs
  · exact ⟨none, rfl⟩
  · simp only [ho, hi, ht, Option.getD_some]
    cases o with
    | none => exact ⟨none, rfl⟩
    | some q =>
      obtain ⟨p, r⟩ := q
      cases p with
      | nil => exact ⟨none, rfl⟩
      | cons j js => exact ⟨_, rfl⟩

lemma purifyFrom_ok (h : ∀ s ∈ ss, Readable env rows s) (edges : List Edge) :
    ∃ out, purifyFrom env rows ss edges = .ok out := by
  induction ss generalizing edges with
  | nil => exact ⟨_, rfl⟩
  | cons s ss ih =>
    obtain ⟨o, ho⟩ := (h s (by simp)).rollbackCut_ok
    have hrest := ih fun t ht => h t (by simp [ht])
    rw [purifyFrom, ho]
    cases o with
    | none =>
      obtain ⟨out, hout⟩ := hrest edges
      exact ⟨_, map_eq_ok.mpr ⟨out, hout, rfl⟩⟩
    | some q =>
      obtain ⟨out, hout⟩ := hrest (edges.map (renameEdge q.1) ++ [reworkEdge q.1])
      exact ⟨_, map_eq_ok.mpr ⟨out, hout, rfl⟩⟩

lemma numbers_strayPart (old title : PyStr) (pre : List ℕ) : (strayPart old title pre).numbers env = pre :=
  numbers_map_num env _ _ rfl

lemma numbers_backPart (s : Subreq) (old : PyStr) (rest : List ℕ) : (backPart s old rest).numbers env = rest :=
  numbers_map_num env _ _ rfl

lemma purifyFrom_numbers {edges : List Edge} {out : List Subreq × List Edge}
    (h : purifyFrom env rows ss edges = .ok out) :
    (out.1.flatMap (Subreq.numbers env)).Perm (ss.flatMap (Subreq.numbers env)) := by
  induction ss generalizing edges out with
  | nil =>
    obtain rfl := Except.ok.inj h
    exact List.Perm.refl _
  | cons s ss ih =>
    rcases purifyFrom_cons h with ⟨out', -, ho, rfl⟩ | ⟨old, title, pre, rest, out', hc, ho, rfl⟩
    · exact (ih ho).append_left _
    · obtain ⟨-, -, hperm, -⟩ := rollbackCut_some hc
      simp only [List.flatMap_cons, numbers_strayPart, numbers_backPart, ← List.append_assoc]
      exact hperm.append (ih ho)

lemma rollbackCut_disjoint {s : Subreq} {old title : PyStr} {pre rest : List ℕ}
    (h : rollbackCut env rows s = .ok (some (old, title, pre, rest))) : pre.Disjoint rest := by
  obtain ⟨-, -, -, -, ⟨m, t, rfl, hm⟩, hsorted⟩ := rollbackCut_some h
  obtain ⟨-, -, -, hs⟩ := rollbackCut_inv h
  have hbots := (splitAtUser_some hs).2.1
  intro v hv hw
  obtain ⟨-, hright, hcross⟩ := List.pairwise_append.mp hsorted
  have hle : v ≤ m := hcross v hv m (by simp)
  have hge : m ≤ v := by
    rcases List.mem_cons.mp hw with rfl | hw
    · exact le_rfl
    · exact List.rel_of_pairwise_cons hright hw
  rw [← le_antisymm hle hge, hbots v hv] at hm
  simp at hm

lemma purifyFrom_exclusive {edges : List Edge} {out : List Subreq × List Edge}
    (h : purifyFrom env rows ss edges = .ok out) (hex : Exclusive env ss) : Exclusive env out.1 := by
  induction ss generalizing edges out with
  | nil =>
    obtain rfl := Except.ok.inj h
    exact List.Pairwise.nil
  | cons s ss ih =>
    obtain ⟨hhead, hrest⟩ := List.pairwise_cons.mp hex
    have hdisjoint : ∀ out' : List Subreq × List Edge, (out'.1.flatMap (Subreq.numbers env)).Perm
        (ss.flatMap (Subreq.numbers env)) → ∀ p ∈ out'.1, (s.numbers env).Disjoint (p.numbers env) := by
      intro out' hperm p hp v hv hw
      have hmem := hperm.mem_iff.mp (List.mem_flatMap.mpr ⟨p, hp, hw⟩)
      obtain ⟨t, ht, hvt⟩ := List.mem_flatMap.mp hmem
      exact hhead t ht hv hvt
    rcases purifyFrom_cons h with ⟨out', -, ho, rfl⟩ | ⟨old, title, pre, rest, out', hc, ho, rfl⟩
    · exact List.pairwise_cons.mpr ⟨hdisjoint out' (purifyFrom_numbers ho), ih ho hrest⟩
    · obtain ⟨-, -, hperm, -⟩ := rollbackCut_some hc
      have hfar : ∀ p ∈ out'.1, ∀ v ∈ pre ++ rest, v ∉ p.numbers env := fun p hp v hv hw =>
        hdisjoint out' (purifyFrom_numbers ho) p hp (hperm.mem_iff.mp hv) hw
      refine List.pairwise_cons.mpr ⟨fun p hp => ?_, List.pairwise_cons.mpr ⟨fun p hp => ?_, ih ho hrest⟩⟩
      · rw [numbers_strayPart]
        rcases List.mem_cons.mp hp with rfl | hp
        · rw [numbers_backPart]
          exact rollbackCut_disjoint hc
        · exact fun v hv => hfar p hp v (by simp [hv])
      · rw [numbers_backPart]
        exact fun v hv => hfar p hp v (by simp [hv])

lemma isRollback_strayPart (old title : PyStr) (pre : List ℕ) : isRollback (strayPart old title pre) = false := by
  simp [isRollback, strayPart, reworked, corrected, show py "有返工" ≠ py "被纠偏" by simp]

lemma PartOf.uncut {s p : Subreq} (h : PartOf env rows s p) : rollbackCut env rows p = .ok none := by
  cases h with
  | whole h => exact h
  | stray h => rw [rollbackCut, if_pos (.inl (isRollback_strayPart ..))]
  | back h =>
    obtain ⟨-, -, -, -, ⟨m, t, rfl, hm⟩, hsorted⟩ := rollbackCut_some h
    have hsort : (m :: t).insertionSort (· ≤ ·) = m :: t :=
      List.Pairwise.insertionSort_eq (List.pairwise_append.mp hsorted).2.1
    rw [rollbackCut, numbers_backPart, hsort]
    split_ifs
    · rfl
    · simp [splitAtUser, hm]

lemma purifyFrom_uncut (h : ∀ s ∈ ss, rollbackCut env rows s = .ok none) (edges : List Edge) :
    purifyFrom env rows ss edges = .ok (ss, edges) := by
  induction ss with
  | nil => rfl
  | cons s ss ih =>
    rw [purifyFrom, h s (by simp), ih fun t ht => h t (by simp [ht])]
    rfl

/-- The ids of sub-requirements. -/
def idsOf (subs : List Subreq) : List Json := subs.map Subreq.idOf

/-- The pass splits the sub-requirement. -/
def isCut (env : Env) (rows : List Event) (s : Subreq) : Bool :=
  match rollbackCut env rows s with
  | .ok (some _) => true
  | _ => false

/-- An edge and what becomes of it: an end that named a sub-requirement still does. -/
structure KeepsRefs (known known' : List Json) (e e' : Edge) : Prop where
  type : e'.type = e.type
  src : e.src ∈ known → e'.src ∈ known'
  dst : e.dst ∈ known → e'.dst ∈ known'

/-- A rework edge between two sub-requirements. -/
structure ReworkBetween (known : List Json) (e : Edge) : Prop where
  type : e.type = py "↺返工"
  src : e.src ∈ known
  dst : e.dst ∈ known

lemma renamed_mem {known ids : List Json} {old : PyStr} {x : Json} (h : x ∈ known ++ .str old :: ids) :
    (if x = .str old then .str (old ++ py "b") else x) ∈
      (known ++ [.str (old ++ py "a"), .str (old ++ py "b")]) ++ ids := by
  split_ifs with hx
  · simp
  · simp only [List.mem_append, List.mem_cons, hx, false_or] at h
    rcases h with h | h
    · simp [h]
    · simp [h]

lemma KeepsRefs.of_renameEdge {known known' ids : List Json} {old : PyStr} {e e' : Edge}
    (h : KeepsRefs ((known ++ [.str (old ++ py "a"), .str (old ++ py "b")]) ++ ids) known' (renameEdge old e) e') :
    KeepsRefs (known ++ .str old :: ids) known' e e' where
  type := h.type
  src hsrc := h.src (renamed_mem hsrc)
  dst hdst := h.dst (renamed_mem hdst)

lemma purifyFrom_edges {edges : List Edge} {out : List Subreq × List Edge} (known : List Json)
    (hid : ∀ s ∈ ss, ∃ i, s.id = some (.str i)) (h : purifyFrom env rows ss edges = .ok out) :
    ∃ renamed new, out.2 = renamed ++ new ∧
      List.Forall₂ (KeepsRefs (known ++ idsOf ss) (known ++ idsOf out.1)) edges renamed ∧
      new.length = ss.countP (isCut env rows) ∧ ∀ e ∈ new, ReworkBetween (known ++ idsOf out.1) e := by
  induction ss generalizing edges out known with
  | nil =>
    obtain rfl := Except.ok.inj h
    exact ⟨edges, [], (List.append_nil _).symm, List.forall₂_same.mpr fun e _ => ⟨rfl, id, id⟩, rfl, by simp⟩
  | cons s ss ih =>
    have hrest : ∀ t ∈ ss, ∃ i, t.id = some (.str i) := fun t ht => hid t (by simp [ht])
    rcases purifyFrom_cons h with ⟨out', hc, ho, rfl⟩ | ⟨old, title, pre, rest, out', hc, ho, rfl⟩
    · obtain ⟨renamed, new, hout, hkeeps, hlen, hnew⟩ := ih (known ++ [s.idOf]) hrest ho
      have hcut : isCut env rows s = false := by rw [isCut, hc]
      simp only [List.append_assoc, List.singleton_append] at hkeeps hnew
      exact ⟨renamed, new, hout, hkeeps, by rw [List.countP_cons_of_neg (by simp [hcut]), hlen], hnew⟩
    · obtain ⟨renamed, new, hout, hkeeps, hlen, hnew⟩ :=
        ih (known ++ [.str (old ++ py "a"), .str (old ++ py "b")]) hrest ho
      have hcut : isCut env rows s = true := by rw [isCut, hc]
      have hold : s.idOf = .str old := by
        obtain ⟨i, hi⟩ := hid s (by simp)
        have hold := (rollbackCut_inv hc).2.1
        rw [hi] at hold
        rw [Subreq.idOf, hi]
        exact hold
      have hids : known ++ [.str (old ++ py "a"), .str (old ++ py "b")] ++ idsOf out'.1 =
          known ++ idsOf (strayPart old title pre :: backPart s old rest :: out'.1) := by
        rw [List.append_assoc]
        rfl
      obtain ⟨kept, added, rfl, hkept, hadded⟩ := forall₂_concat_left hkeeps
      rw [List.forall₂_map_left_iff] at hkept
      rw [hids] at hkept hadded hnew
      refine ⟨kept, added :: new, by simp [hout], ?_, ?_, ?_⟩
      · refine hkept.imp fun e e' he => ?_
        rw [idsOf, List.map_cons, hold]
        exact he.of_renameEdge
      · rw [List.countP_cons_of_pos hcut, List.length_cons, hlen]
      · intro e he
        rcases List.mem_cons.mp he with rfl | he
        · exact ⟨hadded.type, hadded.src (by simp [reworkEdge]), hadded.dst (by simp [reworkEdge])⟩
        · exact hnew e he

lemma isCut_of_uncut {s : Subreq} (h : rollbackCut env rows s = .ok none) : isCut env rows s = false := by
  rw [isCut, h]

/-- The pass on an answer whose ids are strings, repeated or not, whose titles are strings or
missing and whose members number the messages. -/
theorem enforceRollbackPurity_spec (env : Env) (rows : List Event) (r : Result)
    (h : ∀ s ∈ r.subreqs, Readable env rows s) :
    ∃ out, enforceRollbackPurity env rows r = .ok out ∧
      (out.subreqs.flatMap (Subreq.numbers env)).Perm (r.subreqs.flatMap (Subreq.numbers env)) ∧
      (Exclusive env r.subreqs → Exclusive env out.subreqs) ∧
      (∀ s ∈ out.subreqs, isRollback s = true → StartsWithUser env rows s) ∧
      (∃ renamed new, out.edges = renamed ++ new ∧
        List.Forall₂ (KeepsRefs (idsOf r.subreqs) (idsOf out.subreqs)) r.edges renamed ∧
        new.length = r.subreqs.countP (isCut env rows) ∧ ∀ e ∈ new, ReworkBetween (idsOf out.subreqs) e) ∧
      (∀ s ∈ out.subreqs, isCut env rows s = false) ∧ enforceRollbackPurity env rows out = .ok out := by
  obtain ⟨out, hout⟩ := purifyFrom_ok h r.edges
  have huncut : ∀ p ∈ out.1, rollbackCut env rows p = .ok none := by
    intro p hp
    obtain ⟨s, -, hpart⟩ := purifyFrom_parts hout p hp
    exact hpart.uncut
  refine ⟨⟨out.1, out.2⟩, map_eq_ok.mpr ⟨out, hout, rfl⟩, purifyFrom_numbers hout, purifyFrom_exclusive hout,
    fun p hp hr => ?_, purifyFrom_edges [] (fun s hs => (h s hs).id) hout, fun p hp =>
      isCut_of_uncut (huncut p hp),
    map_eq_ok.mpr ⟨out, purifyFrom_uncut huncut out.2, rfl⟩⟩
  obtain ⟨s, -, hpart⟩ := purifyFrom_parts hout p hp
  exact hpart.startsWithUser hr

/-- A rollback over a message of the bot and one of the user. -/
def lateRollback (id : String) (title : Option Json) : Subreq :=
  ⟨some (.str (py id)), title, .str (py "收尾"), corrected, [.num 1, .text (py "#2")]⟩

instance (env : Env) (rows : List Event) (x : Member) : Decidable (NumbersRow env rows x) :=
  decidable_of_iff (((asSegInt env x).any fun v => decide (1 ≤ v) && decide (v ≤ rows.length)) = true) (by
    simp only [NumbersRow, Option.any_eq_true, Bool.and_eq_true, decide_eq_true_eq])

/-- A title that is null cannot be shortened. -/
theorem null_title_is_not_cut :
    (∀ s ∈ [lateRollback "S1" (some .null)], (∃ i, s.id = some (.str i)) ∧
      ∀ x ∈ s.memberIdx, NumbersRow asciiEnv [reply, ask] x) ∧
    enforceRollbackPurity asciiEnv [reply, ask] ⟨[lateRollback "S1" (some .null)], []⟩ = .error .typeError := by
  refine ⟨fun s hs => ?_, by decide +kernel⟩
  obtain rfl := List.mem_singleton.mp hs
  exact ⟨⟨_, rfl⟩, by decide +kernel⟩

def collidingIds : Result :=
  ⟨[lateRollback "S1" none, lateRollback "S1b" none], [⟨.str (py "S1"), .str (py "S1b"), py "⊸"⟩]⟩

lemma readable_collidingIds : ∀ s ∈ collidingIds.subreqs, Readable asciiEnv [reply, ask] s := by
  have hread : ∀ id, Readable asciiEnv [reply, ask] (lateRollback id none) := fun id =>
    ⟨⟨_, rfl⟩, .inl rfl, fun x hx => by
      simp only [lateRollback, List.mem_cons, List.not_mem_nil, or_false] at hx
      rcases hx with rfl | rfl
      · exact ⟨1, rfl, by decide, by decide⟩
      · exact ⟨2, by decide +kernel, by decide, by decide⟩⟩
  intro s hs
  simp only [collidingIds, List.mem_cons, List.not_mem_nil, or_false] at hs
  rcases hs with rfl | rfl
  · exact hread "S1"
  · exact hread "S1b"

theorem enforceRollbackPurity_spec_collidingIds :
    ∃ out, enforceRollbackPurity asciiEnv [reply, ask] collidingIds = .ok out ∧
      (∃ renamed new, out.edges = renamed ++ new ∧
        List.Forall₂ (KeepsRefs (idsOf collidingIds.subreqs) (idsOf out.subreqs)) collidingIds.edges renamed ∧
        new.length = collidingIds.subreqs.countP (isCut asciiEnv [reply, ask]) ∧
        ∀ e ∈ new, ReworkBetween (idsOf out.subreqs) e) ∧
      enforceRollbackPurity asciiEnv [reply, ask] out = .ok out := by
  obtain ⟨out, hout, -, -, -, hedges, -, hagain⟩ :=
    enforceRollbackPurity_spec asciiEnv [reply, ask] collidingIds readable_collidingIds
  exact ⟨out, hout, hedges, hagain⟩

end AgentTrajectory.LlmDecompose
