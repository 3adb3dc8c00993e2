import AgentTrajectory.PyDict
import AgentTrajectory.PyText
import AgentTrajectory.PathWalk

/-! `runtime_lane.py`: the event log of the group, merged from several sources, and the
lane on which each message ran. An event is read once: a missing field is the empty text, and
its time is whatever the reader makes of `ts`. -/
namespace AgentTrajectory.RuntimeLane
open PyText PyDict PathWalk

variable {τ : Type}

structure Event (τ : Type) where
  msgId : PyStr
  parentId : PyStr
  role : PyStr
  name : PyStr
  text : PyStr
  ts : τ
  deriving DecidableEq

/-- What `load_events` returns: every event has an id, and no id stands twice. -/
structure EventLog (τ : Type) where
  events : List (Event τ)
  named : ∀ e ∈ events, e.msgId ≠ []
  distinct : (events.map Event.msgId).Nodup

def firstOfId (seen : List PyStr) : List (Event τ) → List (Event τ)
  | [] => []
  | e :: es =>
      if e.msgId = [] ∨ e.msgId ∈ seen then firstOfId seen es else e :: firstOfId (e.msgId :: seen) es

lemma firstOfId_spec (seen : List PyStr) (es : List (Event τ)) :
    (∀ e ∈ firstOfId seen es, e.msgId ≠ [] ∧ e.msgId ∉ seen) ∧ ((firstOfId seen es).map Event.msgId).Nodup := by
  induction es generalizing seen with
  | nil => simp [firstOfId]
  | cons e es ih =>
    rw [firstOfId]
    split_ifs with h
    · exact ih seen
    · obtain ⟨hne, hseen⟩ := not_or.mp h
      obtain ⟨hmem, hnodup⟩ := ih (e.msgId :: seen)
      refine ⟨?_, ?_⟩
      · intro x hx
        rcases List.mem_cons.mp hx with rfl | hx
        · exact ⟨hne, hseen⟩
        · exact ⟨(hmem x hx).1, fun hs => (hmem x hx).2 (List.mem_cons_of_mem _ hs)⟩
      · rw [List.map_cons, List.nodup_cons]
        refine ⟨fun hid => ?_, hnodup⟩
        obtain ⟨x, hx, hxe⟩ := List.mem_map.mp hid
        exact (hmem x hx).2 (hxe ▸ List.mem_cons_self)

/-- `load_events`: the sources in a row, sorted by time. -/
def loadEvents [LinearOrder τ] (sources : List (List (Event τ))) : EventLog τ where
  events := (firstOfId [] sources.flatten).insertionSort fun a b => a.ts ≤ b.ts
  named e he := ((firstOfId_spec [] sources.flatten).1 e ((List.mem_insertionSort _).mp he)).1
  distinct := ((List.perm_insertionSort _ _).map _).nodup_iff.mpr (firstOfId_spec [] sources.flatten).2

lemma loadEvents_sorted [LinearOrder τ] (sources : List (List (Event τ))) :
    (loadEvents sources).events.Pairwise fun a b => a.ts ≤ b.ts :=
  List.pairwise_insertionSort _ _

namespace EventLog
variable (log : EventLog τ)

def byId : Dict PyStr (Event τ) := ofPairs (log.events.map fun e => (e.msgId, e))

lemma byId_eq : log.byId = log.events.map fun e => (e.msgId, e) :=
  ofPairs_of_nodup (by simpa [keys, Function.comp_def] using log.distinct)

lemma get?_byId {m : PyStr} {e : Event τ} : get? log.byId m = some e ↔ e ∈ log.events ∧ e.msgId = m := by
  have hnodup : (keys log.byId).Nodup := by
    rw [byId_eq]
    simpa [keys, Function.comp_def] using log.distinct
  constructor
  · intro h
    have hmem := mem_of_get? h
    rw [byId_eq, List.mem_map] at hmem
    obtain ⟨x, hx, heq⟩ := hmem
    obtain ⟨rfl, rfl⟩ := Prod.mk.inj heq
    exact ⟨hx, rfl⟩
  · rintro ⟨he, rfl⟩
    refine get?_of_mem hnodup ?_
    rw [byId_eq]
    exact List.mem_map.mpr ⟨e, he, rfl⟩

lemma eq_of_msgId {a b : Event τ} (ha : a ∈ log.events) (hb : b ∈ log.events) (h : a.msgId = b.msgId) : a = b :=
  List.inj_on_of_nodup_map log.distinct ha hb h

lemma get?_byId_self {e : Event τ} (he : e ∈ log.events) : get? log.byId e.msgId = some e :=
  (log.get?_byId).mpr ⟨he, rfl⟩

end EventLog

def group : PyStr := py "oc_53b8b620867a189d8dfe502865dfccc5"

/-- `MAIN`. -/
def mainLane : PyStr := group

def parentIn (byId : Dict PyStr (Event τ)) (m : PyStr) : Option PyStr :=
  ((get? byId m).map Event.parentId).filter fun p => p ≠ [] ∧ (get? byId p).isSome

def rootOf (byId : Dict PyStr (Event τ)) (m : PyStr) : PyStr := walkEnd (parentIn byId) (byId.length + 1) m

inductive Provenance
  | real
  | inherited
  | main
  deriving DecidableEq

/-- The lane of an event: the recorded one, or that of the root of its reply chain, or the
main one. -/
def laneFor (real : Dict PyStr PyStr) (byId : Dict PyStr (Event τ)) (e : Event τ) : PyStr × Provenance :=
  match get? real e.msgId with
  | some lane => (lane, .real)
  | none =>
      match if e.parentId = [] then none else get? real (rootOf byId e.msgId) with
      | none => (mainLane, .main)
      | some lane => if lane = [] ∨ lane = mainLane then (mainLane, .main) else (lane, .inherited)

/-- `assign_lanes`: both dictionaries in one. -/
def assignLanes (real : Dict PyStr PyStr) (log : EventLog τ) : Dict PyStr (PyStr × Provenance) :=
  ofPairs (log.events.map fun e => (e.msgId, laneFor real log.byId e))

def laneShort (lane : PyStr) : PyStr :=
  if lane = mainLane then py "MAIN"
  else match cut group lane with
    | some (_, rest) => rest.dropWhile (· == cp ':')
    | none => lane

example : laneShort (group ++ py ":s:2") = py "s:2" := by decide +kernel

lemma get?_assignLanes (real : Dict PyStr PyStr) (log : EventLog τ) {e : Event τ} (he : e ∈ log.events) :
    get? (assignLanes real log) e.msgId = some (laneFor real log.byId e) := by
  have hnodup : (keys (log.events.map fun e => (e.msgId, laneFor real log.byId e))).Nodup := by
    simpa [keys, Function.comp_def] using log.distinct
  rw [assignLanes, ofPairs_of_nodup hnodup]
  exact get?_of_mem hnodup (List.mem_map.mpr ⟨e, he, rfl⟩)

end AgentTrajectory.RuntimeLane
