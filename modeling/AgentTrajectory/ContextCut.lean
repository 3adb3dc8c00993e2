import AgentTrajectory.PreInstructionSnapshot
import AgentTrajectory.ReplayNoninterference
import AgentTrajectory.RelatedLists

/-! The cut of a context to its last events. `xs[-n:]` is the last `n` of a list except for zero,
where it is the whole list. -/
namespace AgentTrajectory.PreInstructionSnapshot
open PyText PyDict PyJson PyValue RuntimeLane RawContextReplay PrincipleDistill RelatedLists

variable {limit : ℤ}

/-- The last elements of a list, as many as the limit says or as there are. -/
def lastOf {α : Type} (limit : ℤ) (xs : List α) : List α := xs.rtake (min limit.toNat xs.length)

lemma lastOf_eq {α : Type} (limit : ℤ) (xs : List α) : lastOf limit xs = xs.drop (xs.length - limit.toNat) := by
  rw [lastOf, List.rtake]
  congr 1
  omega

lemma sliceFrom_zero {α : Type} (xs : List α) : sliceFrom (-0) xs = xs := by
  simp [sliceFrom]

lemma sliceFrom_neg {α : Type} (h : 0 < limit) (xs : List α) : sliceFrom (-limit) xs = lastOf limit xs := by
  rw [sliceFrom, if_neg (by omega), lastOf_eq]
  congr 2
  omega

lemma sliceFrom_eq_lastOf_iff {α : Type} (h : 0 ≤ limit) (xs : List α) :
    sliceFrom (-limit) xs = lastOf limit xs ↔ (limit = 0 → xs = []) := by
  rcases h.eq_or_lt with rfl | hpos
  · rw [sliceFrom_zero, lastOf_eq]
    simp
  · exact iff_of_true (sliceFrom_neg hpos xs) fun hzero => absurd hzero hpos.ne'

section Cut
variable {τ : Type} [LinearOrder τ]

lemma packOf_ok {env : ReplayEnv τ} {distill : PyStr → Except PyError Distilled} {events : List (Event τ)}
    {byId : Dict PyStr (Event τ)} {laneOf : Dict PyStr PyStr} {item : Dict PyStr Json} {t0 : Event τ}
    {pack : Pack τ} (h : packOf env distill events byId laneOf limit item t0 = .ok pack) :
    pack.t0 = recordOf env t0 ∧ pack.contextEvents =
      (sliceFrom (-limit) (eligibleEvents laneOf (laneOfItem laneOf item t0) t0 events)).map (recordOf env) := by
  obtain ⟨corrections, -, h⟩ := bind_eq_ok.mp h
  obtain ⟨dicts, -, h⟩ := bind_eq_ok.mp h
  obtain ⟨principles, -, h⟩ := bind_eq_ok.mp h
  obtain ⟨evidence, -, h⟩ := bind_eq_ok.mp h
  obtain ⟨comment, -, h⟩ := bind_eq_ok.mp h
  rw [← Except.ok.inj h]
  exact ⟨rfl, rfl⟩

lemma sliceFrom_cut_iff (h : 0 ≤ limit) (xs : List (Event τ)) :
    sliceFrom (-limit) xs = lastOf limit xs ∧ (sliceFrom (-limit) xs).Pairwise (fun a b => a.ts ≤ b.ts) ↔
      (limit = 0 → xs = []) ∧ (lastOf limit xs).Pairwise fun a b => a.ts ≤ b.ts := by
  rw [← sliceFrom_eq_lastOf_iff h]
  exact and_congr_right fun heq => by rw [heq]

lemma map_cut_iff {env : ReplayEnv τ} (h : 0 ≤ limit) (xs : List (Event τ)) :
    ((sliceFrom (-limit) xs).map (recordOf env) = (lastOf limit xs).map (recordOf env) ∧
        ((sliceFrom (-limit) xs).map (recordOf env)).Pairwise fun a b => a.ts ≤ b.ts) ↔
      (limit = 0 → xs = []) ∧ (lastOf limit xs).Pairwise fun a b => a.ts ≤ b.ts := by
  rw [← sliceFrom_cut_iff h, List.pairwise_map]
  refine and_congr_left fun _ => ⟨fun hmap => ?_, fun heq => by rw [heq]⟩
  rw [sliceFrom_eq_lastOf_iff h]
  rintro rfl
  rw [sliceFrom_zero, lastOf_eq] at hmap
  simpa using hmap

lemma snapshotRow_ok {env : ReplayEnv τ} {distill : PyStr → Except PyError Distilled} {log : EventLog τ}
    {laneOf : Dict PyStr PyStr} {item : Dict PyStr Json} {pack : Pack τ}
    (h : snapshotRow env distill log.events log.byId laneOf limit item = .ok (.ok pack)) :
    ∃ t0 ∈ log.events, getNone item (py "instruction_to_fix_msg") = .str t0.msgId ∧
      packOf env distill log.events log.byId laneOf limit item t0 = .ok pack := by
  obtain ⟨event, hevent, h⟩ := bind_eq_ok.mp h
  cases event with
  | none => simp at h
  | some t0 =>
    obtain ⟨pack', hpack, h⟩ := bind_eq_ok.mp h
    obtain rfl := SnapshotRow.ok.inj (Except.ok.inj h)
    cases hid : getNone item (py "instruction_to_fix_msg") with
    | str m =>
      rw [hid] at hevent
      obtain ⟨hmem, rfl⟩ := log.get?_byId.mp (Except.ok.inj hevent)
      exact ⟨t0, hmem, rfl, hpack⟩
    | _ => simp [hid, CorrectionCensus.lookup] at hevent

end Cut

/-- Both contexts are the last events that are eligible, as many as the limit says or as there are,
and in the order of their times, exactly when the limit is not zero or nothing is eligible, and
those last events are listed in the order of their times. -/
theorem context_cut_iff {τ : Type} [LinearOrder τ] (env : ReplayEnv τ) (limit : ℤ) (hlimit : 0 ≤ limit) :
    (∀ row t0 events byId laneOf q chosen audit,
        chooseContext env row t0 events byId laneOf limit = .ok (q, chosen, audit) →
        (chosen = lastOf limit (candidates t0 events byId laneOf).2 ∧ chosen.Pairwise (fun a b => a.ts ≤ b.ts) ↔
          (limit = 0 → (candidates t0 events byId laneOf).2 = []) ∧
            (lastOf limit (candidates t0 events byId laneOf).2).Pairwise fun a b => a.ts ≤ b.ts)) ∧
      ∀ chat real log rewritten rows, buildSnapshots env chat real log limit rewritten = .ok rows →
        ∀ (i : ℕ) item pack, rewritten[i]? = some item → rows[i]? = some (.ok pack) →
          ∃ t0 ∈ log.events, getNone item (py "instruction_to_fix_msg") = .str t0.msgId ∧
            ∃ eligible, eligible =
                eligibleEvents (shortLanes real log) (laneOfItem (shortLanes real log) item t0) t0 log.events ∧
              (pack.contextEvents = (lastOf limit eligible).map (recordOf env) ∧
                  pack.contextEvents.Pairwise (fun a b => a.ts ≤ b.ts) ↔
                (limit = 0 → eligible = []) ∧ (lastOf limit eligible).Pairwise fun a b => a.ts ≤ b.ts) := by
  constructor
  · intro row t0 events byId laneOf q chosen audit h
    rw [(chooseContext_ok h).1]
    exact sliceFrom_cut_iff hlimit _
  · intro chat real log rewritten rows h i item pack hitem hpack
    obtain ⟨corrections, -, h⟩ := bind_eq_ok.mp h
    obtain ⟨dicts, -, h⟩ := bind_eq_ok.mp h
    obtain ⟨warm, -, h⟩ := bind_eq_ok.mp h
    obtain ⟨row, hrow, hsnap⟩ := forall₂_getElem? (mapM_eq_ok.mp h) hitem
    rw [hpack] at hrow
    obtain rfl := Option.some.inj hrow
    obtain ⟨t0, hmem, hid, hok⟩ := snapshotRow_ok hsnap
    refine ⟨t0, hmem, hid, _, rfl, ?_⟩
    rw [(packOf_ok hok).2]
    exact map_cut_iff hlimit _

/-- The instruction of the thread. -/
def deployAsk : Event ℕ := chatEvent "t0" "m3" "user" 20 "deploy the service"

def deployItem : Dict PyStr Json := [(py "instruction_to_fix_msg", .str (py "t0"))]

/-- The ids of the context of a row. -/
def contextIds {τ : Type} : SnapshotRow τ → Option (List PyStr)
  | .missingInstructionEvent _ _ => none
  | .ok pack => some (pack.contextEvents.map EventRecord.msgId)

/-- A limit of zero lets every eligible event through. -/
theorem zero_limit_takes_all :
    (∃ x, chooseContext plainEnv [] deployAsk threadLog.events threadLog.byId (shortLanes [] threadLog) 0 = .ok x ∧
        x.2.1.map Event.msgId = [py "m1", py "m3"]) ∧
      ∃ rows, buildSnapshots plainEnv (fun _ => .ok []) [] threadLog 0 [deployItem] = .ok rows ∧
        rows.map contextIds = [some [py "m1", py "m2", py "m3"]] :=
  ⟨ok_of_toOption (by decide +kernel), ok_of_toOption (by decide +kernel)⟩

theorem context_cut_iff_thread :
    ∃ x, chooseContext plainEnv [] deployAsk threadLog.events threadLog.byId (shortLanes [] threadLog) 1 = .ok x ∧
      x.2.1.map Event.msgId = [py "m3"] ∧
      x.2.1 = lastOf 1 (candidates deployAsk threadLog.events threadLog.byId (shortLanes [] threadLog)).2 ∧
      x.2.1.Pairwise fun a b => a.ts ≤ b.ts := by
  obtain ⟨⟨q, chosen, audit⟩, hx, hids⟩ := ok_of_toOption (show ∃ x ∈ (chooseContext plainEnv [] deployAsk
    threadLog.events threadLog.byId (shortLanes [] threadLog) 1).toOption,
      x.2.1.map Event.msgId = [py "m3"] by decide +kernel)
  exact ⟨_, hx, hids, ((context_cut_iff plainEnv 1 (by decide)).1 [] deployAsk threadLog.events threadLog.byId
    (shortLanes [] threadLog) q chosen audit hx).mpr ⟨by decide, by decide +kernel⟩⟩

end AgentTrajectory.PreInstructionSnapshot
