import AgentTrajectory.ReplayNoninterference

/-! The two climbs to the root of a reply chain. Each is modelled as its loop with a bound on the
steps, so that it is a statement that it ends: no loop runs more often than there are messages and
once more. Without circles the roots are those of the reply trees, and where no parent is missing
both climbs agree. -/
namespace AgentTrajectory.RawContextReplay
open PyText PyDict PathWalk RuntimeLane

variable {τ : Type}

/-- The loop of `raw_context_replay._root_of`: whether the chain is complete, and the chain; `none`
where the bound is reached. -/
def climb (byId : Dict PyStr (Event τ)) : ℕ → List PyStr → List PyStr → PyStr → Option (Bool × List PyStr)
  | 0, _, _, _ => none
  | n + 1, seen, chain, cur =>
      if cur ≠ [] ∧ cur ∉ seen then
        let parent := ((get? byId cur).map Event.parentId).getD []
        if parent = [] then some (true, chain)
        else if (get? byId parent).isNone then some (false, chain ++ [parent])
        else climb byId n (cur :: seen) (chain ++ [parent]) parent
      else some (false, chain)

/-- `raw_context_replay._root_of` within a bound. -/
def rootWithin (byId : Dict PyStr (Event τ)) (n : ℕ) (m : PyStr) : Option Chain :=
  if m = [] ∨ (get? byId m).isNone then some ⟨none, false, []⟩
  else (climb byId n [] [m] m).map fun p => ⟨p.2.reverse.head?.or (some m), p.1, p.2.reverse⟩

/-- `runtime_lane._root_of` within a bound. -/
def laneRootWithin (byId : Dict PyStr (Event τ)) : ℕ → List PyStr → PyStr → Option PyStr
  | 0, _, _ => none
  | n + 1, seen, m =>
      match get? byId m with
      | none => some m
      | some e =>
          if e.parentId ≠ [] ∧ (get? byId e.parentId).isSome ∧ m ∉ seen then
            laneRootWithin byId n (m :: seen) e.parentId
          else some m

section Loops
variable {byId : Dict PyStr (Event τ)}

lemma parentOf_eq_some {m p : PyStr} :
    parentOf byId m = some p ↔ p ≠ [] ∧ ∃ e, get? byId m = some e ∧ e.parentId = p := by
  simp [parentOf, Option.filter_eq_some_iff, and_comm]

lemma parentIn_eq_some {m p : PyStr} : parentIn byId m = some p ↔
      (p ≠ [] ∧ (get? byId p).isSome = true) ∧ ∃ e, get? byId m = some e ∧ e.parentId = p := by
  simp [parentIn, Option.filter_eq_some_iff, and_comm]

lemma parentOf_isSome {m : PyStr} (h : (parentOf byId m).isSome) : m ∈ keys byId := by
  obtain ⟨p, hp⟩ := Option.isSome_iff_exists.mp h
  obtain ⟨-, e, he, -⟩ := parentOf_eq_some.mp hp
  exact mem_keys_of_get? he

lemma parentIn_isSome {m : PyStr} (h : (parentIn byId m).isSome) : m ∈ keys byId := by
  obtain ⟨p, hp⟩ := Option.isSome_iff_exists.mp h
  obtain ⟨-, e, he, -⟩ := parentIn_eq_some.mp hp
  exact mem_keys_of_get? he

lemma laneRootWithin_from (n : ℕ) {seen : List PyStr} (hseen : seen.Nodup) (hsub : ∀ x ∈ seen, x ∈ keys byId)
    (hn : (keys byId).length < n + seen.length) (m : PyStr) :
    laneRootWithin byId n seen m = some (((walk (parentIn byId) n seen m).1.getLast?).getD m) := by
  refine walk_rec (fun _ => parentIn_isSome) (motive := fun n seen m =>
    laneRootWithin byId n seen m = some (((walk (parentIn byId) n seen m).1.getLast?).getD m))
      ?_ ?_ ?_ n hseen hsub hn m
  · intro n seen m hm
    rw [laneRootWithin, walk, if_pos hm]
    cases get? byId m <;> simp [hm]
  · intro n seen m hm hnone
    rw [laneRootWithin, walk, if_neg hm, hnone]
    cases he : get? byId m with
    | none => rfl
    | some e =>
      have hno : ¬(e.parentId ≠ [] ∧ (get? byId e.parentId).isSome = true ∧ m ∉ seen) := by
        rintro ⟨hne, hin, -⟩
        rw [parentIn_eq_some.mpr ⟨⟨hne, hin⟩, e, he, rfl⟩] at hnone
        simp at hnone
      simp only [if_neg hno]
      rfl
  · intro n seen m p hm hp ih
    obtain ⟨⟨hne, hin⟩, e, he, rfl⟩ := parentIn_eq_some.mp hp
    rw [laneRootWithin, walk, if_neg hm, hp, he]
    dsimp only
    rw [if_pos ⟨hne, hin, hm⟩, ih, List.getLast?_cons, Option.getD_some]

lemma climb_from (n : ℕ) {seen : List PyStr} (hseen : seen.Nodup) (hsub : ∀ x ∈ seen, x ∈ keys byId)
    (hn : (keys byId).length < n + seen.length) (m : PyStr) :
    m ≠ [] → (get? byId m).isSome = true → ∀ chain, climb byId n seen chain m =
      some ((walk (parentOf byId) n seen m).2 &&
          (get? byId (((walk (parentOf byId) n seen m).1.getLast?).getD m)).isSome,
        chain ++ (walk (parentOf byId) n seen m).1) := by
  refine walk_rec (fun _ => parentOf_isSome) (motive := fun n seen m =>
    m ≠ [] → (get? byId m).isSome = true → ∀ chain, climb byId n seen chain m =
      some ((walk (parentOf byId) n seen m).2 &&
          (get? byId (((walk (parentOf byId) n seen m).1.getLast?).getD m)).isSome,
        chain ++ (walk (parentOf byId) n seen m).1)) ?_ ?_ ?_ n hseen hsub hn m
  · intro n seen m hm _ _ chain
    rw [climb, if_neg (fun h => h.2 hm), walk, if_pos hm]
    simp
  · intro n seen m hm hnone hne hin chain
    obtain ⟨e, he⟩ := Option.isSome_iff_exists.mp hin
    have hparent : e.parentId = [] := by
      by_contra hp
      rw [parentOf_eq_some.mpr ⟨hp, e, he, rfl⟩] at hnone
      simp at hnone
    rw [climb, if_pos ⟨hne, hm⟩, walk, if_neg hm, hnone]
    simp [he, hparent]
  · intro n seen m p hm hp ih hne hin chain
    obtain ⟨hpne, e, he, rfl⟩ := parentOf_eq_some.mp hp
    rw [climb, if_pos ⟨hne, hm⟩, walk, if_neg hm, hp, he]
    dsimp only [Option.map_some, Option.getD_some]
    rw [if_neg hpne, List.getLast?_cons, Option.getD_some]
    by_cases hmiss : (get? byId e.parentId).isNone = true
    · have hnone : parentOf byId e.parentId = none := by
        simp [parentOf, Option.isNone_iff_eq_none.mp hmiss]
      have hstay : (walk (parentOf byId) n (m :: seen) e.parentId).1 = [] := by
        cases n with
        | zero => rfl
        | succ n =>
          rw [walk, hnone]
          split_ifs <;> rfl
      rw [if_pos hmiss, hstay]
      simp [Option.isNone_iff_eq_none.mp hmiss]
    · rw [if_neg hmiss, ih hpne (by simpa [Option.isSome_iff_ne_none] using hmiss), List.append_assoc]
      rfl

lemma rootWithin_eq {n : ℕ} (hn : byId.length < n) (m : PyStr) : rootWithin byId n m = some (rootOf byId m) := by
  rw [rootWithin, rootOf]
  split_ifs with hm
  · rfl
  · rw [not_or] at hm
    have hin : (get? byId m).isSome = true := by simpa [Option.isSome_iff_ne_none] using hm.2
    have hwalk : walk (parentOf byId) n [] m = walk (parentOf byId) (byId.length + 1) [] m :=
      walk_fuel (fun _ => parentOf_isSome) (by rwa [length_keys]) (by rw [length_keys]; omega) m
    rw [climb_from n List.nodup_nil (by simp) (by simpa [length_keys] using hn) m hm.1 hin, hwalk]
    simp [walkEnd, List.getLast?_cons]

lemma laneRootWithin_eq {n : ℕ} (hn : byId.length < n) (m : PyStr) :
    laneRootWithin byId n [] m = some (RuntimeLane.rootOf byId m) := by
  have hwalk : walk (parentIn byId) n [] m = walk (parentIn byId) (byId.length + 1) [] m :=
    walk_fuel (fun _ => parentIn_isSome) (by rwa [length_keys]) (by rw [length_keys]; omega) m
  rw [laneRootWithin_from n List.nodup_nil (by simp) (by simpa [length_keys] using hn),
    RuntimeLane.rootOf, walkEnd, hwalk]

end Loops

section Roots
variable {log : EventLog τ}

lemma rootOf_root {e : Event τ} (he : e ∈ log.events) :
    (rootOf log.byId e.msgId).root = some (walkEnd (parentOf log.byId) (log.byId.length + 1) e.msgId) := by
  have hin : ¬(e.msgId = [] ∨ (get? log.byId e.msgId).isNone = true) := by
    rw [log.get?_byId_self he]
    simp [log.named e he]
  rw [rootOf, if_neg hin]

lemma parentOf_event {e : Event τ} (he : e ∈ log.events) :
    parentOf log.byId e.msgId = if e.parentId = [] then none else some e.parentId := by
  rw [parentOf, log.get?_byId_self he, Option.map_some]
  split_ifs with hp <;> simp [Option.filter, hp]

lemma parentIn_eq_parentOf (hall : ∀ e ∈ log.events, e.parentId = [] ∨ ∃ p ∈ log.events, p.msgId = e.parentId) :
    parentIn log.byId = parentOf log.byId := by
  funext m
  rw [parentIn, parentOf]
  cases hm : get? log.byId m with
  | none => rfl
  | some e =>
    obtain ⟨he, -⟩ := log.get?_byId.mp hm
    rcases hall e he with hp | ⟨p, hp, hid⟩
    · simp [Option.filter, hp]
    · simp [Option.filter, ← hid, log.get?_byId_self hp]

end Roots

/-- Both climbs end within as many steps as there are messages and one more, whatever the links.
Without a circle the root of a message is itself, the root of its parent, or the id of the missing
parent, and messages have one root exactly when reply links connect them. Where no parent is
missing, both climbs give one root. -/
theorem reply_roots (log : EventLog τ) :
    (∀ m n, log.byId.length < n → rootWithin log.byId n m = some (rootOf log.byId m) ∧
        laneRootWithin log.byId n [] m = some (RuntimeLane.rootOf log.byId m)) ∧
      (Acyclic (fun x y => parentOf log.byId x = some y) →
        (∀ e ∈ log.events,
          (e.parentId = [] → (rootOf log.byId e.msgId).root = some e.msgId) ∧
          (∀ p ∈ log.events, p.msgId = e.parentId →
            (rootOf log.byId e.msgId).root = (rootOf log.byId p.msgId).root) ∧
          (e.parentId ≠ [] → (∀ p ∈ log.events, p.msgId ≠ e.parentId) →
            (rootOf log.byId e.msgId).root = some e.parentId)) ∧
        ∀ a ∈ log.events, ∀ b ∈ log.events, (rootOf log.byId a.msgId).root = (rootOf log.byId b.msgId).root ↔
          Relation.EqvGen (fun x y => parentOf log.byId x = some y) a.msgId b.msgId) ∧
      ((∀ e ∈ log.events, e.parentId = [] ∨ ∃ p ∈ log.events, p.msgId = e.parentId) →
        ∀ e ∈ log.events, (rootOf log.byId e.msgId).root = some (RuntimeLane.rootOf log.byId e.msgId)) := by
  refine ⟨fun m n hn => ⟨rootWithin_eq hn m, laneRootWithin_eq hn m⟩, fun hac =>
    ⟨fun e he => ⟨?_, ?_, ?_⟩, ?_⟩, ?_⟩
  · intro hp
    have hnone : parentOf log.byId e.msgId = none := by rw [parentOf_event he, if_pos hp]
    rw [rootOf_root he, eq_of_leads_of_none hnone (leads_walkEnd _ _)]
  · intro p hp hid
    have hstep : parentOf log.byId e.msgId = some p.msgId := by
      rw [parentOf_event he, if_neg (hid ▸ log.named p hp), hid]
    rw [rootOf_root he, rootOf_root hp, walkEnd_step (fun _ => parentOf_isSome) hac (by simp [length_keys]) hstep]
  · intro hne hmiss
    have hstep : parentOf log.byId e.msgId = some e.parentId := by rw [parentOf_event he, if_neg hne]
    have hnone : parentOf log.byId e.parentId = none := by
      have hget : get? log.byId e.parentId = none := by
        rw [Option.eq_none_iff_forall_ne_some]
        intro p hp
        obtain ⟨hmem, hid⟩ := log.get?_byId.mp hp
        exact hmiss p hmem hid
      rw [parentOf, hget]
      rfl
    rw [rootOf_root he, walkEnd_step (fun _ => parentOf_isSome) hac (by simp [length_keys]) hstep,
      eq_of_leads_of_none hnone (leads_walkEnd _ _)]
  · intro a ha b hb
    rw [rootOf_root ha, rootOf_root hb, Option.some_inj]
    exact walkEnd_eq_iff (fun _ => parentOf_isSome) hac (by simp [length_keys])
  · intro hall e he
    rw [rootOf_root he, RuntimeLane.rootOf, parentIn_eq_parentOf hall]

theorem reply_roots_thread : Acyclic (fun x y => parentOf threadLog.byId x = some y) ∧
      Relation.EqvGen (fun x y => parentOf threadLog.byId x = some y) (py "m6") (py "m1") := by
  have hac : Acyclic (fun x y => parentOf threadLog.byId x = some y) := by
    refine acyclic_of_lt (fun m => (threadLog.events.map Event.msgId).idxOf m) fun x y hxy => ?_
    obtain ⟨-, e, he, rfl⟩ := parentOf_eq_some.mp hxy
    obtain ⟨hmem, rfl⟩ := threadLog.get?_byId.mp he
    have hall : ∀ e ∈ threadLog.events, e.parentId ≠ [] →
        (threadLog.events.map Event.msgId).idxOf e.parentId <
          (threadLog.events.map Event.msgId).idxOf e.msgId := by
      decide +kernel
    exact hall e hmem (parentOf_eq_some.mp hxy).1
  refine ⟨hac, ?_⟩
  exact (((reply_roots threadLog).2.1 hac).2 (chatEvent "m6" "m5" "user" 40 "not to test") (by decide +kernel)
    (chatEvent "m1" "" "user" 10 "what is running") (by decide +kernel)).mp (by decide +kernel)

end AgentTrajectory.RawContextReplay
