import AgentTrajectory.LlmSegment
import AgentTrajectory.PyValue

/-! `_split_audit_llm` of `llm_segment.py`: the segments of a task are handed to a model, which
may put them into several groups. Ids that it invents are dropped and ids that it leaves out
are put back; an id that it repeats inside a group stays repeated. -/
namespace AgentTrajectory.LlmSegment
open PyText PyDict PyJson PyValue TaskStitch

def unfenced (raw : PyStr) : PyStr :=
  if startswith raw (py "```") then
    let rest := raw.drop 3
    let inner := ((cut (py "```") rest).map Prod.fst).getD rest
    strip (inner.dropWhile (py "json").elem)
  else raw

/-- The value under `groups`; `none` where the call or the reading of its answer raises. -/
def answeredGroups (reply : Option PyStr) : Option Json :=
  match (reply.map fun content => unfenced (strip content)).bind loads with
  | some (.obj d) => some ((get? d (py "groups")).getD (.arr []))
  | _ => none

/-- The groups with their members that are wanted and not yet taken, and the final `seen`. -/
def takeGroups (ids : List ℕ) : List ℕ → List (List ℕ) → List (List ℕ) × List ℕ
  | seen, [] => ([], seen)
  | seen, g :: gs =>
      let ints := g.filter fun x => x ∈ ids ∧ x ∉ seen
      let r := takeGroups ids (seen ++ ints) gs
      (if ints.isEmpty then r.1 else ints :: r.1, r.2)

def coverGroups (ids : List ℕ) (groups : List (List ℕ)) : List (List ℕ) :=
  let r := takeGroups ids [] groups
  let missing := ids.filter (· ∉ r.2)
  let out := if missing.isEmpty then r.1 else r.1 ++ [missing]
  if out.isEmpty then [ids] else out

section Audit
variable (env : Env) (str : Json → PyStr)

/-- `_seg_ints` of a parsed value; `str` is the text of a value that is no string. -/
def segIntsOf (members : Json) : Except PyError (List ℕ) := do
  let xs ← listOf (orEmpty members (.arr []))
  return segInts env (xs.map fun x => match x with | .str s => s | v => str v)

/-- `_split_audit_llm`; of the prompt only the look-up of the atoms is kept. -/
def splitAuditLlm (atoms : List (List Event)) (segIds : List ℕ) (reply : Option PyStr) :
    Except PyError (List (List ℕ)) := do
  let ids := segIds.dedup.insertionSort (· ≤ ·)
  if ids.length < 2 then return [ids]
  let _ ← ids.mapM fun s : ℕ => position atoms.length (s - 1)
  match answeredGroups reply with
  | none => return [ids]
  | some groups =>
      let groups ← listOf groups
      let ints ← groups.mapM (segIntsOf env str)
      return coverGroups ids ints

end Audit

/-- The first group that names an id of the task names it once. -/
def NamedOnce (ids : List ℕ) (groups : List (List ℕ)) : Prop :=
  ∀ x ∈ ids, ∀ g ∈ groups.find? fun g => decide (x ∈ g), g.count x = 1

section Cover
variable (ids : List ℕ)

lemma mem_takeGroups_seen (seen : List ℕ) (groups : List (List ℕ)) (x : ℕ) :
    x ∈ (takeGroups ids seen groups).2 ↔ x ∈ seen ∨ x ∈ ids ∧ ∃ g ∈ groups, x ∈ g := by
  induction groups generalizing seen with
  | nil => simp [takeGroups]
  | cons g gs ih =>
    rw [takeGroups, ih]
    simp only [List.mem_append, List.mem_filter, decide_eq_true_eq, List.mem_cons, exists_eq_or_imp]
    tauto

lemma flatten_takeGroups_cons (seen g : List ℕ) (gs : List (List ℕ)) :
    (takeGroups ids seen (g :: gs)).1.flatten = g.filter (fun x => x ∈ ids ∧ x ∉ seen) ++
      (takeGroups ids (seen ++ g.filter fun x => x ∈ ids ∧ x ∉ seen) gs).1.flatten := by
  rw [takeGroups]
  dsimp only
  split_ifs with hnil
  · rw [List.isEmpty_iff.mp hnil, List.nil_append]
  · rw [List.flatten_cons]

lemma count_takeGroups (seen : List ℕ) (groups : List (List ℕ)) (x : ℕ) :
    (takeGroups ids seen groups).1.flatten.count x =
      if x ∈ ids ∧ x ∉ seen then ((groups.find? fun g => decide (x ∈ g)).map (·.count x)).getD 0 else 0 := by
  induction groups generalizing seen with
  | nil => simp [takeGroups]
  | cons g gs ih =>
    rw [flatten_takeGroups_cons, List.count_append, ih]
    by_cases hx : x ∈ ids ∧ x ∉ seen
    · rw [if_pos hx, List.count_filter (by simpa using hx)]
      by_cases hg : x ∈ g
      · rw [List.find?_cons_of_pos (by simpa using hg), if_neg (by simp [hg, hx])]
        rfl
      · rw [List.find?_cons_of_neg (by simpa using hg), if_pos (by simp [hg, hx]),
          List.count_eq_zero.mpr hg, Nat.zero_add]
    · have hfilter : x ∉ g.filter fun y => y ∈ ids ∧ y ∉ seen := by
        simp only [List.mem_filter, decide_eq_true_eq]
        exact fun h => hx h.2
      rw [if_neg hx, List.count_eq_zero.mpr hfilter, if_neg]
      simp only [List.mem_append, hfilter, or_false]
      exact hx

lemma takeGroups_seen (seen : List ℕ) (groups : List (List ℕ)) :
    (takeGroups ids seen groups).2 = seen ++ (takeGroups ids seen groups).1.flatten := by
  induction groups generalizing seen with
  | nil => simp [takeGroups]
  | cons g gs ih => rw [flatten_takeGroups_cons, ← List.append_assoc, ← ih, takeGroups]

lemma flatten_coverGroups (groups : List (List ℕ)) : (coverGroups ids groups).flatten =
      (takeGroups ids [] groups).1.flatten ++ ids.filter (· ∉ (takeGroups ids [] groups).2) := by
  have hseen := takeGroups_seen ids [] groups
  rw [coverGroups]
  split_ifs with hmissing hout hout
  · rw [List.isEmpty_iff] at hout hmissing
    rw [hout, List.flatten_nil, List.append_nil] at hseen
    have hids : ids = [] := by simpa [hseen] using hmissing
    rw [hout, hmissing, hids]
    rfl
  · rw [List.isEmpty_iff.mp hmissing, List.append_nil]
  · simp at hout
  · rw [List.flatten_append, List.flatten_singleton]

variable {ids}

lemma count_coverGroups_eq_one_iff (hids : ids.Nodup) (groups : List (List ℕ)) :
    (∀ x, (coverGroups ids groups).flatten.count x = if x ∈ ids then 1 else 0) ↔ NamedOnce ids groups := by
  have hcount : ∀ x, (coverGroups ids groups).flatten.count x =
      if x ∈ ids then ((groups.find? fun g => decide (x ∈ g)).map (·.count x)).getD 1 else 0 := by
    intro x
    rw [flatten_coverGroups, List.count_append, count_takeGroups]
    by_cases hx : x ∈ ids
    · cases hfind : groups.find? fun g => decide (x ∈ g) with
      | some g =>
        have hseen : x ∈ (takeGroups ids [] groups).2 :=
          (mem_takeGroups_seen ids [] groups x).mpr
            (.inr ⟨hx, g, List.mem_of_find?_eq_some hfind, by simpa using List.find?_some hfind⟩)
        rw [if_pos ⟨hx, by simp⟩, if_pos hx, List.count_eq_zero.mpr (by simp [hseen])]
        rfl
      | none =>
        have hseen : x ∉ (takeGroups ids [] groups).2 := by
          rw [mem_takeGroups_seen]
          rintro (h | ⟨-, g, hg, hxg⟩)
          · simp at h
          · simpa [hxg] using List.find?_eq_none.mp hfind g hg
        rw [List.count_filter (by simpa using hseen), List.count_eq_one_of_mem hids hx]
        simp [hx]
    · rw [if_neg (fun h => hx h.1), if_neg hx, Nat.zero_add]
      exact List.count_eq_zero.mpr fun h => hx (List.mem_of_mem_filter h)
  constructor
  · intro h x hx g hg
    have := (hcount x).symm.trans (h x)
    simpa [hx, show groups.find? (fun g => decide (x ∈ g)) = some g from hg] using this
  · intro h x
    rw [hcount]
    split_ifs with hx
    · cases hfind : groups.find? fun g => decide (x ∈ g) with
      | none => rfl
      | some g => exact h x hx g hfind
    · rfl

end Cover

lemma position_isOk_iff (n s : ℕ) : (position n (s - 1)).isOk = true ↔ s ≤ n ∧ 0 < n := by
  rw [position]
  split_ifs with h h' <;> simp [Except.isOk, Except.toBool] <;> omega

/-- Every id of the task stands in exactly one group, once, and no other id does: exactly when
there is nothing to ask, or every id has its atom and an answer that can be read is a list of
lists none of which repeats an id that it is the first to name. -/
theorem splitAuditLlm_partitions_iff (env : Env) (str : Json → PyStr) (atoms : List (List Event))
    (segIds : List ℕ) (reply : Option PyStr) :
    (∃ out, splitAuditLlm env str atoms segIds reply = .ok out ∧
        ∀ x, out.flatten.count x = if x ∈ segIds then 1 else 0) ↔
      segIds.dedup.length < 2 ∨
        (∀ s ∈ segIds, s ≤ atoms.length ∧ 0 < atoms.length) ∧
          ∀ groups ∈ answeredGroups reply, ∃ gs ints, listOf groups = .ok gs ∧
            gs.mapM (segIntsOf env str) = .ok ints ∧ NamedOnce segIds ints := by
  set ids := segIds.dedup.insertionSort (· ≤ ·) with hdef
  have hperm : ids.Perm segIds.dedup := List.perm_insertionSort _ _
  have hnodup : ids.Nodup := hperm.nodup_iff.mpr (List.nodup_dedup segIds)
  have hmem : ∀ x, x ∈ ids ↔ x ∈ segIds := fun x => hperm.mem_iff.trans List.mem_dedup
  have hwhole : ∀ x, [ids].flatten.count x = if x ∈ segIds then 1 else 0 := by
    intro x
    simp only [List.flatten_singleton, ← hmem]
    exact hnodup.count
  rw [← hperm.length_eq]
  by_cases hlen : ids.length < 2
  · refine iff_of_true ⟨[ids], ?_, hwhole⟩ (.inl hlen)
    rw [splitAuditLlm, ← hdef, if_pos hlen]
    rfl
  have hatoms : (∃ ps, ids.mapM (fun s : ℕ => position atoms.length (s - 1)) = .ok ps) ↔
      ∀ s ∈ segIds, s ≤ atoms.length ∧ 0 < atoms.length := by
    simp only [exists_mapM_eq_ok, position_isOk_iff, hmem]
  have hcover : ∀ ints, (∀ x, (coverGroups ids ints).flatten.count x = if x ∈ segIds then 1 else 0) ↔
      NamedOnce segIds ints := by
    intro ints
    simp only [← hmem, count_coverGroups_eq_one_iff hnodup, NamedOnce]
  rw [splitAuditLlm, ← hdef, if_neg hlen, or_iff_right hlen, ← hatoms]
  cases hans : answeredGroups reply with
  | none =>
    constructor
    · rintro ⟨out, h, -⟩
      obtain ⟨ps, hps, -⟩ := bind_eq_ok.mp h
      exact ⟨⟨ps, hps⟩, by simp⟩
    · rintro ⟨⟨ps, hps⟩, -⟩
      exact ⟨[ids], bind_eq_ok.mpr ⟨ps, hps, rfl⟩, hwhole⟩
  | some groups =>
    constructor
    · rintro ⟨out, h, hout⟩
      obtain ⟨ps, hps, h⟩ := bind_eq_ok.mp h
      obtain ⟨gs, hgs, h⟩ := bind_eq_ok.mp h
      obtain ⟨ints, hints, h⟩ := bind_eq_ok.mp h
      obtain rfl := Except.ok.inj h
      refine ⟨⟨ps, hps⟩, fun groups' hgroups => ?_⟩
      obtain rfl := Option.some.inj hgroups
      exact ⟨gs, ints, hgs, hints, (hcover ints).mp hout⟩
    · rintro ⟨⟨ps, hps⟩, hgroups⟩
      obtain ⟨gs, ints, hgs, hints, honce⟩ := hgroups groups rfl
      exact ⟨coverGroups ids ints, bind_eq_ok.mpr ⟨ps, hps, bind_eq_ok.mpr ⟨gs, hgs,
        bind_eq_ok.mpr ⟨ints, hints, rfl⟩⟩⟩, (hcover ints).mpr honce⟩

/-- The answer names the first segment twice in one group. -/
theorem repeated_id_stays_repeated : splitAuditLlm asciiEnv Json.dumps [[ask], [nextAsk]] [1, 2]
      (some (py "\x7b\"groups\": [[1, 1], [2]]\x7d")) = .ok [[1, 1], [2]] := by
  decide +kernel

end AgentTrajectory.LlmSegment
