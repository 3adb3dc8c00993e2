import AgentTrajectory.PyValue
import AgentTrajectory.TaskStitch

/-! `llm_segment.py`: how the grouping answer of the model is read and turned into
clusters. Whatever the tasks of the answer say, the clusters partition the atomic segments; an
answer whose tasks or members cannot be iterated raises. -/
namespace AgentTrajectory.LlmSegment
open PyText PyDict PyJson PyValue TaskStitch

/-- One entry of `tasks` as it is read; a member is given by its text `str(x)`. -/
structure LlmTask where
  title : Json
  goal : Json
  reason : Json
  memberSegs : List PyStr

structure Meta where
  title : Json
  goal : Json
  reason : Json
  segs : List ℕ
  deriving DecidableEq

/-- `re.findall(r"\d+", s)` read as integers. -/
def digitRuns (decimal : CodePoint → Option ℕ) (cur : Option ℕ) : PyStr → List ℕ
  | [] => cur.toList
  | c :: s =>
      match decimal c with
      | some d => digitRuns decimal (some (cur.getD 0 * 10 + d)) s
      | none => cur.toList ++ digitRuns decimal none s

def segInts (env : Env) (members : List PyStr) : List ℕ :=
  members.flatMap (digitRuns env.decimal none)

def taskKey (env : Env) (t : LlmTask) : ℕ := (segInts env t.memberSegs).min?.getD (10 ^ 9)

/-- The members of a task that are in range and not yet taken, with the new `seen`. -/
def freshSegs (n : ℕ) : List ℕ → List ℕ → List ℕ × List ℕ
  | seen, [] => ([], seen)
  | seen, x :: xs =>
      if 1 ≤ x ∧ x ≤ n ∧ x ∉ seen then
        let r := freshSegs n (seen ++ [x]) xs
        (x :: r.1, r.2)
      else freshSegs n seen xs

def atomAt (atoms : List (List Event)) (x : ℕ) : List Event := atoms.getD (x - 1) []

/-- The loop over the tasks: the clusters with their metas, and the final `seen`. -/
def groupTasks (env : Env) (atoms : List (List Event)) :
    List ℕ → List LlmTask → List (List Event × Meta) × List ℕ
  | seen, [] => ([], seen)
  | seen, t :: ts =>
      let f := freshSegs atoms.length seen (segInts env t.memberSegs)
      let r := groupTasks env atoms f.2 ts
      if f.1.isEmpty then r
      else ((sortByTs (f.1.flatMap (atomAt atoms)), ⟨t.title, t.goal, t.reason, f.1⟩) :: r.1, r.2)

def orphan (atoms : List (List Event)) (x : ℕ) : List Event × Meta :=
  (atomAt atoms x, ⟨.str (py "(LLM 未归类·孤段)"), .str [], .str (py "未归类补孤任务"), [x]⟩)

/-- `assemble_clusters` behind the reading of the answer: the clusters with their metas, in the
order of their first messages. -/
def assembleClusters (env : Env) (atoms : List (List Event)) (tasks : List LlmTask) :
    List (List Event × Meta) :=
  let g := groupTasks env atoms [] (tasks.insertionSort fun a b => taskKey env a ≤ taskKey env b)
  let missing := (List.range' 1 atoms.length).filter fun x => x ∉ g.2
  sortByHead Prod.fst (g.1 ++ missing.map (orphan atoms))

/-- `t.get(k, "")`. -/
def textField (t : Dict PyStr Json) (k : String) : Json := (get? t (py k)).getD (.str [])

/-- `t.get("member_segs", []) or []`. -/
def memberSegs (t : Dict PyStr Json) : Json :=
  orEmpty ((get? t (py "member_segs")).getD (.arr [])) (.arr [])

/-- `result.get("tasks", [])`. -/
def answeredTasks (result : Dict PyStr Json) : Json := (get? result (py "tasks")).getD (.arr [])

section Read
variable (env : Env) (str : Json → PyStr)

/-- One entry of `tasks`; `str` is the text of a value that is no string. -/
def readTask (t : Json) : Except PyError LlmTask := do
  let t ← asDict t
  let members ← listOf (memberSegs t)
  return ⟨textField t "title", textField t "goal", textField t "reason",
    members.map fun x => match x with | .str s => s | v => str v⟩

/-- `assemble_clusters`, given the parsed answer. -/
def assembleParsed (atoms : List (List Event)) (result : Json) :
    Except PyError (List (List Event × Meta)) := do
  let result ← asDict result
  let entries ← listOf (answeredTasks result)
  let tasks ← entries.mapM (readTask str)
  return assembleClusters env atoms tasks

end Read

lemma freshSegs_spec (n : ℕ) (seen xs : List ℕ) :
    (freshSegs n seen xs).2 = seen ++ (freshSegs n seen xs).1 ∧
      (seen.Nodup → (freshSegs n seen xs).2.Nodup) ∧
      ∀ x ∈ (freshSegs n seen xs).1, 1 ≤ x ∧ x ≤ n := by
  induction xs generalizing seen with
  | nil => simp [freshSegs]
  | cons x xs ih =>
    rw [freshSegs]
    split_ifs with h
    · obtain ⟨h1, h2, h3⟩ := ih (seen ++ [x])
      refine ⟨by simp [h1], fun hn => h2 ?_, ?_⟩
      · rw [List.nodup_append]
        refine ⟨hn, by simp, fun a ha b hb he => ?_⟩
        obtain rfl := List.mem_singleton.mp hb
        exact h.2.2 (he ▸ ha)
      · exact List.forall_mem_cons.mpr ⟨⟨h.1, h.2.1⟩, h3⟩
    · exact ih seen

section Assemble
variable (env : Env) (atoms : List (List Event))

lemma groupTasks_spec (seen : List ℕ) (tasks : List LlmTask) : (groupTasks env atoms seen tasks).2 =
        seen ++ (groupTasks env atoms seen tasks).1.flatMap (fun c => c.2.segs) ∧
      (seen.Nodup → (groupTasks env atoms seen tasks).2.Nodup) ∧
      (∀ c ∈ (groupTasks env atoms seen tasks).1,
        c.1.Perm (c.2.segs.flatMap (atomAt atoms)) ∧ ∀ x ∈ c.2.segs, 1 ≤ x ∧ x ≤ atoms.length) := by
  induction tasks generalizing seen with
  | nil => simp [groupTasks]
  | cons t ts ih =>
    obtain ⟨f1, f2, f3⟩ := freshSegs_spec atoms.length seen (segInts env t.memberSegs)
    obtain ⟨h1, h2, h3⟩ := ih (freshSegs atoms.length seen (segInts env t.memberSegs)).2
    rw [groupTasks]
    split_ifs with he
    · rw [List.isEmpty_iff.mp he, List.append_nil] at f1
      rw [f1] at h1 h2 h3 ⊢
      exact ⟨h1, h2, h3⟩
    · refine ⟨?_, fun hn => h2 (f2 hn), List.forall_mem_cons.mpr ⟨⟨sortByTs_perm _, f3⟩, h3⟩⟩
      rw [h1]
      simp only [List.flatMap_cons, ← List.append_assoc]
      rw [← f1]

lemma groupTasks_sorted (seen : List ℕ) (tasks : List LlmTask) :
    ∀ c ∈ (groupTasks env atoms seen tasks).1, c.2.segs ≠ [] ∧ c.1.Pairwise tsLe := by
  induction tasks generalizing seen with
  | nil => simp [groupTasks]
  | cons t ts ih =>
    rw [groupTasks]
    split_ifs with he
    · exact ih _
    · exact List.forall_mem_cons.mpr ⟨⟨by simpa using he, pairwise_sortByTs _⟩, ih _⟩

lemma flatMap_atomAt : (List.range' 1 atoms.length).flatMap (atomAt atoms) = atoms.flatten := by
  have hmap : (List.range' 1 atoms.length).map (atomAt atoms) = atoms := by
    refine List.ext_getElem (by simp) fun i hi hi' => ?_
    simp [atomAt, hi']
  rw [List.flatMap_def, hmap]

lemma assembleClusters_segs (tasks : List LlmTask) :
    ((assembleClusters env atoms tasks).flatMap fun c => c.2.segs).Perm
      (List.range' 1 atoms.length) := by
  let g := groupTasks env atoms [] (tasks.insertionSort fun a b => taskKey env a ≤ taskKey env b)
  let missing := (List.range' 1 atoms.length).filter fun x => x ∉ g.2
  obtain ⟨h1, h2, h3⟩ := groupTasks_spec env atoms []
    (tasks.insertionSort fun a b => taskKey env a ≤ taskKey env b)
  have hseen : g.2 = g.1.flatMap fun c => c.2.segs := by simpa using h1
  have hbound : ∀ x ∈ g.2, x ∈ List.range' 1 atoms.length := by
    intro x hx
    rw [hseen] at hx
    obtain ⟨c, hc, hxc⟩ := List.mem_flatMap.mp hx
    have := (h3 c hc).2 x hxc
    rw [List.mem_range'_1]
    omega
  have hall : (g.2 ++ missing).Perm (List.range' 1 atoms.length) := by
    refine (List.perm_ext_iff_of_nodup ?_ (List.nodup_range' ..)).mpr fun x => ?_
    · rw [List.nodup_append]
      refine ⟨h2 List.nodup_nil, (List.nodup_range' ..).filter _, fun a ha b hb he => ?_⟩
      have hnot := (List.mem_filter.mp hb).2
      simp only [decide_eq_true_eq] at hnot
      exact hnot (he ▸ ha)
    · rw [List.mem_append, List.mem_filter]
      simp only [decide_eq_true_eq]
      have := hbound x
      tauto
  have horphans : (missing.map (orphan atoms)).flatMap (fun c => c.2.segs) = missing := by
    rw [List.flatMap_map]
    simp [orphan]
  refine ((sortByHead_perm Prod.fst _).flatMap_right _).trans ?_
  rw [List.flatMap_append, horphans, ← hseen]
  exact hall

lemma assembleClusters_rows {tasks : List LlmTask} {c : List Event × Meta}
    (hc : c ∈ assembleClusters env atoms tasks) :
    c.1.Perm (c.2.segs.flatMap (atomAt atoms)) ∧ c.2.segs ≠ [] ∧
      ((∀ a ∈ atoms, a.Pairwise tsLe) → c.1.Pairwise tsLe) := by
  rw [assembleClusters, (sortByHead_perm Prod.fst _).mem_iff, List.mem_append] at hc
  rcases hc with hc | hc
  · obtain ⟨-, -, h3⟩ := groupTasks_spec env atoms []
      (tasks.insertionSort fun a b => taskKey env a ≤ taskKey env b)
    obtain ⟨hne, hsorted⟩ := groupTasks_sorted env atoms [] _ c hc
    exact ⟨(h3 c hc).1, hne, fun _ => hsorted⟩
  · obtain ⟨x, hx, rfl⟩ := List.mem_map.mp hc
    refine ⟨by simp [orphan], by simp [orphan], fun hsorted => ?_⟩
    have hlt : x - 1 < atoms.length := by
      have := List.mem_range'_1.mp (List.mem_filter.mp hx).1
      omega
    simp only [orphan, atomAt, List.getD_eq_getElem _ _ hlt]
    exact hsorted _ (List.getElem_mem hlt)

theorem assembleClusters_perm (tasks : List LlmTask) :
    ((assembleClusters env atoms tasks).map Prod.fst).flatten.Perm atoms.flatten := by
  have hrows : ((assembleClusters env atoms tasks).map Prod.fst).flatten.Perm
      (((assembleClusters env atoms tasks).flatMap fun c => c.2.segs).flatMap (atomAt atoms)) := by
    rw [List.flatMap_assoc, ← List.flatMap_def]
    exact List.Perm.flatMap_left _ fun c hc => (assembleClusters_rows env atoms hc).1
  rw [← flatMap_atomAt atoms]
  exact hrows.trans ((assembleClusters_segs env atoms tasks).flatMap_right _)

end Assemble

lemma atomAt_disjoint {atoms : List (List Event)} (hdisjoint : atoms.Pairwise List.Disjoint)
    {x y : ℕ} (hx : 1 ≤ x ∧ x ≤ atoms.length) (hy : 1 ≤ y ∧ y ≤ atoms.length) (hxy : x ≠ y) :
    (atomAt atoms x).Disjoint (atomAt atoms y) := by
  have hx' : x - 1 < atoms.length := by omega
  have hy' : y - 1 < atoms.length := by omega
  rw [atomAt, atomAt, List.getD_eq_getElem _ _ hx', List.getD_eq_getElem _ _ hy']
  rw [List.pairwise_iff_getElem] at hdisjoint
  rcases Nat.lt_or_gt_of_ne hxy with hlt | hlt
  · exact hdisjoint _ _ hx' hy' (by omega)
  · exact (hdisjoint _ _ hy' hx' (by omega)).symm

/-- The clusters partition the events and their metas the atoms, each cluster is the events of its
own atoms, and everything is in the order of time. -/
structure Partition (atoms : List (List Event)) (cs : List (List Event × Meta)) : Prop where
  events : (cs.map Prod.fst).flatten.Perm atoms.flatten
  disjoint : (cs.map Prod.fst).Pairwise List.Disjoint
  segs : (cs.flatMap fun c => c.2.segs).Perm (List.range' 1 atoms.length)
  rows : ∀ c ∈ cs, c.1.Perm (c.2.segs.flatMap (atomAt atoms)) ∧ c.1 ≠ [] ∧ c.1.Pairwise tsLe
  ordered : cs.Pairwise fun c d => headTs c.1 ≤ headTs d.1

section Partition
variable {env : Env} {atoms : List (List Event)} (hne : ∀ a ∈ atoms, a ≠ [])
  (hsorted : ∀ a ∈ atoms, a.Pairwise tsLe) (hdisjoint : atoms.Pairwise List.Disjoint)
include hne hsorted hdisjoint

lemma assembleClusters_partition (tasks : List LlmTask) :
    Partition atoms (assembleClusters env atoms tasks) := by
  have hperm := assembleClusters_perm env atoms tasks
  have hsegs := assembleClusters_segs env atoms tasks
  refine ⟨hperm, ?_, hsegs, fun c hc => ?_, pairwise_sortByHead Prod.fst _⟩
  · rw [List.pairwise_map]
    have hnodup := hsegs.nodup_iff.mpr (List.nodup_range' ..)
    refine (List.nodup_flatMap.mp hnodup).2.imp_of_mem fun {c d} hc hd hcd => ?_
    intro e hec hed
    obtain ⟨x, hx, hex⟩ := List.mem_flatMap.mp
      ((assembleClusters_rows env atoms hc).1.mem_iff.mp hec)
    obtain ⟨y, hy, hey⟩ := List.mem_flatMap.mp
      ((assembleClusters_rows env atoms hd).1.mem_iff.mp hed)
    have hxr := List.mem_range'_1.mp (hsegs.mem_iff.mp (List.mem_flatMap.mpr ⟨c, hc, hx⟩))
    have hyr := List.mem_range'_1.mp (hsegs.mem_iff.mp (List.mem_flatMap.mpr ⟨d, hd, hy⟩))
    have hxy : x ≠ y := fun he => hcd hx (he ▸ hy)
    exact atomAt_disjoint hdisjoint (by omega) (by omega) hxy hex hey
  · obtain ⟨hrows, hsne, hs⟩ := assembleClusters_rows env atoms hc
    refine ⟨hrows, ?_, hs hsorted⟩
    obtain ⟨x, hx⟩ := List.exists_mem_of_ne_nil _ hsne
    have hrange := List.mem_range'_1.mp (hsegs.mem_iff.mp (List.mem_flatMap.mpr ⟨c, hc, hx⟩))
    have hlt : x - 1 < atoms.length := by omega
    obtain ⟨e, he⟩ := List.exists_mem_of_ne_nil _ (hne _ (List.getElem_mem hlt))
    have hmem : e ∈ c.2.segs.flatMap (atomAt atoms) := by
      refine List.mem_flatMap.mpr ⟨x, hx, ?_⟩
      rw [atomAt, List.getD_eq_getElem _ _ hlt]
      exact he
    exact List.ne_nil_of_mem (hrows.mem_iff.mpr hmem)

end Partition

/-- The answer is an object, its tasks are a list (or another value to iterate over) of objects, and
the members of each are empty or to be iterated over. -/
def Readable (result : Json) : Prop :=
  ∃ d, result = .obj d ∧ iterable (answeredTasks d) = true ∧
    ∀ t ∈ itemsOf (answeredTasks d), ∃ e, t = .obj e ∧ iterable (memberSegs e) = true

lemma readTask_isOk (str : Json → PyStr) (t : Json) :
    (readTask str t).isOk = true ↔ ∃ e, t = .obj e ∧ iterable (memberSegs e) = true := by
  rw [isOk_iff]
  constructor
  · rintro ⟨x, hx⟩
    obtain ⟨e, he, hx⟩ := bind_eq_ok.mp hx
    obtain ⟨members, hmembers, -⟩ := bind_eq_ok.mp hx
    exact ⟨e, asDict_eq_ok.mp he, (listOf_eq_ok.mp hmembers).1⟩
  · rintro ⟨e, rfl, hmembers⟩
    exact ⟨_, bind_eq_ok.mpr ⟨e, rfl, bind_eq_ok.mpr ⟨_, listOf_eq_ok.mpr ⟨hmembers, rfl⟩, rfl⟩⟩⟩

/-- `assemble_clusters` returns exactly on the answers that can be read, and what it returns is a
partition, whatever the tasks name. -/
theorem assembleParsed_partition_iff (env : Env) (str : Json → PyStr) (atoms : List (List Event))
    (hne : ∀ a ∈ atoms, a ≠ []) (hsorted : ∀ a ∈ atoms, a.Pairwise tsLe)
    (hdisjoint : atoms.Pairwise List.Disjoint) (result : Json) :
    ((∃ cs, assembleParsed env str atoms result = .ok cs ∧ Partition atoms cs) ↔ Readable result) ∧
      ∀ cs, assembleParsed env str atoms result = .ok cs → Partition atoms cs := by
  have hparts : ∀ cs, assembleParsed env str atoms result = .ok cs → Partition atoms cs := by
    intro cs h
    obtain ⟨d, -, h⟩ := bind_eq_ok.mp h
    obtain ⟨entries, -, h⟩ := bind_eq_ok.mp h
    obtain ⟨tasks, -, h⟩ := bind_eq_ok.mp h
    obtain rfl := Except.ok.inj h
    exact assembleClusters_partition hne hsorted hdisjoint tasks
  refine ⟨⟨?_, ?_⟩, hparts⟩
  · rintro ⟨cs, h, -⟩
    obtain ⟨d, hd, h⟩ := bind_eq_ok.mp h
    obtain ⟨entries, hentries, h⟩ := bind_eq_ok.mp h
    obtain ⟨tasks, htasks, -⟩ := bind_eq_ok.mp h
    obtain ⟨hiter, rfl⟩ := listOf_eq_ok.mp hentries
    exact ⟨d, asDict_eq_ok.mp hd, hiter, fun t ht =>
      (readTask_isOk str t).mp (exists_mapM_eq_ok.mp ⟨tasks, htasks⟩ t ht)⟩
  · rintro ⟨d, rfl, hiter, hall⟩
    obtain ⟨tasks, htasks⟩ :=
      exists_mapM_eq_ok.mpr fun t ht => (readTask_isOk str t).mpr (hall t ht)
    have h : assembleParsed env str atoms (.obj d) = .ok (assembleClusters env atoms tasks) :=
      bind_eq_ok.mpr ⟨d, rfl, bind_eq_ok.mpr ⟨_, listOf_eq_ok.mpr ⟨hiter, rfl⟩,
        bind_eq_ok.mpr ⟨tasks, htasks, rfl⟩⟩⟩
    exact ⟨_, h, hparts _ h⟩

/-- An answer of one task with the given members. -/
def answerOf (members : Json) : Json :=
  .obj [(py "tasks", .arr [.obj [(py "title", .str (py "deploy")), (py "member_segs", members)]])]

lemma disjoint_asks : [[ask, reply], [nextAsk]].Pairwise List.Disjoint := by
  rw [List.pairwise_pair, List.disjoint_singleton]
  decide +kernel

theorem assembleParsed_partition_iff_overlap :
    ∃ cs, assembleParsed asciiEnv Json.dumps [[ask, reply], [nextAsk]]
      (answerOf (.arr [.str (py "#2,7"), .int 2, .null])) = .ok cs ∧
        Partition [[ask, reply], [nextAsk]] cs := by
  refine (assembleParsed_partition_iff asciiEnv Json.dumps [[ask, reply], [nextAsk]] (by decide)
    (by decide +kernel) disjoint_asks _).1.mpr ⟨_, rfl, by decide +kernel, fun t ht => ?_⟩
  obtain rfl := List.mem_singleton.mp ht
  exact ⟨_, rfl, by decide +kernel⟩

/-- A task whose only member is not in a list. -/
theorem single_member_raises :
    assembleParsed asciiEnv Json.dumps [[ask, reply], [nextAsk]] (answerOf (.int 1)) =
      .error .typeError := by
  decide +kernel

end AgentTrajectory.LlmSegment
