import AgentTrajectory.AnthropicCapture

/-! The light track of `anthropic_capture_proxy.py`: one record of system and tools for each session
and hash. A request checks and marks its hash in one go; its line is written in a later step of the
event loop, when the lock is its own, so requests interleave between the two. -/
namespace AgentTrajectory.SystemToolsCapture
open PyText PyDict PyJson AnthropicCapture

variable {s : State} {i : ℕ}

/-- A request that reaches `capture_system_tools`, and whether the file takes a line from it. -/
structure Request where
  now : Clock
  path : PyStr
  sessionId : PyStr
  payload : Dict PyStr Json
  sha : PyStr
  disk : Bool

namespace Request

def record (r : Request) : Json :=
  .obj [(py "ts", .float r.now.lit), (py "session_id", .str r.sessionId),
    (py "model", getNone r.payload (py "model")),
    (py "path", .str r.path), (py "sha", .str r.sha),
      (py "system", getNone r.payload (py "system")),
    (py "tools", getNone r.payload (py "tools"))]

def line (r : Request) : Option Bytes := encodeUtf8 (r.record.dumps ++ py "\n")

def carries (r : Request) : Bool :=
  getNone r.payload (py "system") != .null || getNone r.payload (py "tools") != .null

def key (r : Request) : PyStr × PyStr := (r.sessionId, r.sha)

/-- The request's write succeeds: its line can be encoded and the file takes it. -/
def succeeds (r : Request) : Bool := r.disk && r.line.isSome

end Request

/-- The sets of seen hashes, the requests in front of the lock and the written lines. -/
structure State where
  seen : Dict PyStr (List PyStr)
  waiting : List ℕ
  file : List (ℕ × Bytes)
  deriving DecidableEq

def State.empty : State := ⟨[], [], []⟩

inductive Step
  | start (i : ℕ)
  | write (i : ℕ)
  deriving DecidableEq

variable (requests : ℕ → Request)

/-- `capture_system_tools` up to its `await`. -/
def start (s : State) (i : ℕ) : State :=
  let r := requests i
  if !r.carries then s
  else if r.sha ∈ (get? s.seen r.sessionId).getD [] then s
  else { s with seen := extendAt s.seen r.sessionId [r.sha], waiting := s.waiting ++ [i] }

/-- The part of `append_jsonl` under the lock. An exception is printed by `proxy` and dropped. -/
def write (s : State) (i : ℕ) : State :=
  let r := requests i
  if i ∈ s.waiting then
    { s with
      waiting := s.waiting.erase i
      file := if r.disk then s.file ++ (r.line.map fun line => (i, line)).toList else s.file }
  else s

def step (s : State) : Step → State
  | .start i => start requests s i
  | .write i => write requests s i

def run (steps : List Step) : State := steps.foldl (step requests) State.empty

/-- An interleaving: no request starts or writes twice. -/
structure Schedule where
  steps : List Step
  once : steps.Nodup

def live (s : State) : List (PyStr × PyStr) :=
  s.waiting.map (fun i => (requests i).key) ++ s.file.map fun w => (requests w.1).key

/-- No session and hash is recorded twice. -/
def AtMostOnce (s : State) : Prop := ∀ k, (s.file.map fun w => (requests w.1).key).count k ≤ 1

/-- After a failed write, a later request for the same session and hash that can write leaves a
record of it, or one that waits to be written. -/
def Retried (steps : List Step) : Prop :=
  ∀ before between after i j, steps = before ++ .write i :: (between ++ .start j :: after) →
    i ∈ (run requests before).waiting → (requests i).succeeds = false →
      (requests j).carries = true → (requests j).key = (requests i).key →
        (requests j).succeeds = true →
        (requests i).key ∈ live requests (run requests steps)

def Opens (before : List Step) (i : ℕ) : Prop :=
  (requests i).carries = true ∧ ∀ h, .start h ∈ before → (requests h).carries = true →
    (requests h).key ≠ (requests i).key

/-- No request for a session and hash that could be written starts after the write of the first one
failed. -/
def NoneLost (steps : List Step) : Prop :=
  ∀ before waits between after i j, steps = before ++ .start i ::
    (waits ++ .write i :: (between ++ .start j :: after)) →
    Opens requests before i → (requests i).succeeds = false →
      (requests j).carries = true → (requests j).key = (requests i).key →
        (requests j).succeeds = false

def Marked (s : State) (k : PyStr × PyStr) : Prop := k.2 ∈ (get? s.seen k.1).getD []

lemma start_cases (s : State) (i : ℕ) :
    (start requests s i = s ∧ ((requests i).carries = true → Marked s (requests i).key)) ∨
      ((requests i).carries = true ∧ ¬ Marked s (requests i).key ∧
        start requests s i = { s with
          seen := extendAt s.seen (requests i).sessionId [(requests i).sha], waiting :=
            s.waiting ++ [i] }) := by
  rw [start]
  by_cases hc : (requests i).carries = true
  · by_cases hm : (requests i).sha ∈ (get? s.seen (requests i).sessionId).getD []
    · exact .inl ⟨by simp [hc, hm], fun _ => hm⟩
    · exact .inr ⟨hc, hm, by simp [hc, hm]⟩
  · exact .inl ⟨by simp [hc], fun h => absurd h hc⟩

lemma marked_extendAt (s : State) (r : Request) (k : PyStr × PyStr) :
    k.2 ∈ (get? (extendAt s.seen r.sessionId [r.sha]) k.1).getD [] ↔ Marked s k ∨ r.key = k := by
  rw [extendAt, get?_set, Marked]
  by_cases hs : r.sessionId = k.1
  · rw [if_pos hs, hs]
    simp [Request.key, Prod.ext_iff, hs, eq_comm]
  · rw [if_neg hs]
    simp [Request.key, Prod.ext_iff, hs]

lemma marked_step (s : State) (e : Step) (k : PyStr × PyStr) :
    Marked (step requests s e) k ↔ Marked s k ∨ ∃ i, e = .start i ∧ (requests i).carries = true ∧
    (requests i).key = k := by
  cases e with
  | start i =>
    rw [step]
    rcases start_cases requests s i with ⟨hs, hskip⟩ | ⟨hc, -, hs⟩
    · rw [hs]
      refine ⟨.inl, fun h => h.elim id ?_⟩
      rintro ⟨j, hj, hc, rfl⟩
      obtain rfl := Step.start.inj hj
      exact hskip hc
    · rw [hs, Marked, marked_extendAt]
      simp [hc]
  | write i =>
    have hseen : (write requests s i).seen = s.seen := by
      rw [write]
      split_ifs <;> rfl
    rw [step, Marked, hseen]
    simp [Marked]

lemma write_of_mem (h : i ∈ s.waiting) : write requests s i = { s with
      waiting := s.waiting.erase i
      file := if (requests i).disk then s.file ++ ((requests i).line.map fun line =>
        (i, line)).toList else s.file } := by
  rw [write, if_pos h]

lemma write_waiting (s : State) (i : ℕ) : (write requests s i).waiting = s.waiting.erase i := by
  rw [write]
  by_cases h : i ∈ s.waiting
  · rw [if_pos h]
  · rw [if_neg h, List.erase_of_not_mem h]

lemma live_erase (h : i ∈ s.waiting) :
    (live requests s).Perm ((requests i).key ::
      ((s.waiting.erase i).map (fun i => (requests i).key) ++
        s.file.map fun w => (requests w.1).key)) :=
  ((List.perm_cons_erase h).map fun i => (requests i).key).append_right _

lemma live_write (h : i ∈ s.waiting) (hok : (requests i).succeeds = true) :
    (live requests s).Perm (live requests (write requests s i)) := by
  obtain ⟨hdisk, hline⟩ := Bool.and_eq_true_iff.mp hok
  obtain ⟨line, hline⟩ := Option.isSome_iff_exists.mp hline
  refine (live_erase requests h).trans ?_
  rw [write_of_mem requests h, if_pos hdisk, hline, live]
  simp only [Option.map_some, Option.toList_some, List.map_append, List.map_cons, List.map_nil]
  rw [← List.append_assoc]
  exact (List.perm_append_singleton _ _).symm

lemma live_write_failed (h : i ∈ s.waiting) (hfail : (requests i).succeeds = false) :
    (live requests s).Perm ((requests i).key :: live requests (write requests s i)) := by
  have hfile : (if (requests i).disk then s.file ++ ((requests i).line.map fun line =>
    (i, line)).toList else s.file) = s.file := by
    split_ifs with hdisk
    · have hnone : (requests i).line = none := by simpa [Request.succeeds, hdisk] using hfail
      rw [hnone]
      simp
    · rfl
  rw [write_of_mem requests h, hfile]
  exact live_erase requests h

lemma live_start (s : State) (i : ℕ) (h : (requests i).carries = true)
    (hm : ¬ Marked s (requests i).key) :
    (live requests (start requests s i)).Perm ((requests i).key :: live requests s) := by
  rcases start_cases requests s i with ⟨-, hskip⟩ | ⟨-, -, hs⟩
  · exact absurd (hskip h) hm
  · rw [hs, live, live]
    simp only [List.map_append, List.map_cons, List.map_nil,
      List.append_assoc, List.singleton_append]
    exact List.perm_middle

structure Inv (s : State) : Prop where
  nodup : (live requests s).Nodup
  marked : ∀ k ∈ live requests s, Marked s k

variable {requests}

lemma Inv.step (h : Inv requests s) (e : Step) : Inv requests (step requests s e) := by
  have hmono (k) (hk : Marked s k) : Marked (SystemToolsCapture.step requests s e) k :=
    (marked_step requests s e k).mpr (.inl hk)
  cases e with
  | start i =>
    rcases start_cases requests s i with ⟨hs, -⟩ | ⟨hc, hm, -⟩
    · rw [SystemToolsCapture.step, hs]
      exact h
    · have hlive := live_start requests s i hc hm
      refine ⟨hlive.nodup_iff.mpr (List.nodup_cons.mpr ⟨fun hk => hm (h.marked _ hk), h.nodup⟩),
        fun k hk => ?_⟩
      rcases List.mem_cons.mp (hlive.mem_iff.mp hk) with rfl | hk
      · exact (marked_step requests s _ _).mpr (.inr ⟨i, rfl, hc, rfl⟩)
      · exact hmono k (h.marked k hk)
  | write i =>
    by_cases hi : i ∈ s.waiting
    · cases hok : (requests i).succeeds with
      | true =>
        have hlive := live_write requests hi hok
        exact ⟨hlive.nodup_iff.mp h.nodup, fun k hk => hmono k (h.marked k (hlive.mem_iff.mpr hk))⟩
      | false =>
        have hlive := live_write_failed requests hi hok
        refine ⟨(List.nodup_cons.mp (hlive.nodup_iff.mp h.nodup)).2, fun k hk => ?_⟩
        exact hmono k (h.marked k (hlive.mem_iff.mpr (List.mem_cons_of_mem _ hk)))
    · have hs : SystemToolsCapture.step requests s (.write i) = s := if_neg hi
      rw [hs]
      exact h

lemma dead_step {k : PyStr × PyStr} (hm : Marked s k) (hk : k ∉ live requests s) (e : Step) :
    k ∉ live requests (step requests s e) := by
  cases e with
  | start i =>
    rcases start_cases requests s i with ⟨hs, -⟩ | ⟨hc, hnew, -⟩
    · rwa [step, hs]
    · intro hmem
      rcases List.mem_cons.mp ((live_start requests s i hc hnew).mem_iff.mp hmem) with rfl | hmem
      · exact hnew hm
      · exact hk hmem
  | write i =>
    by_cases hi : i ∈ s.waiting
    · cases hok : (requests i).succeeds with
      | true => exact fun hmem => hk ((live_write requests hi hok).mem_iff.mpr hmem)
      | false =>
        exact fun hmem =>
          hk ((live_write_failed requests hi hok).mem_iff.mpr (List.mem_cons_of_mem _ hmem))
    · have hs : step requests s (.write i) = s := if_neg hi
      rwa [hs]

lemma dead_run {k : PyStr × PyStr} (hm : Marked s k)
    (hk : k ∉ live requests s) (steps : List Step) :
    k ∉ live requests (steps.foldl (step requests) s) := by
  induction steps generalizing s with
  | nil => exact hk
  | cons e steps ih => exact ih ((marked_step requests s e k).mpr (.inl hm)) (dead_step hm hk e)

lemma run_append (steps later : List Step) :
    run requests (steps ++ later) = later.foldl (step requests)
    (run requests steps) := List.foldl_append ..

lemma run_concat (steps : List Step) (e : Step) :
    run requests (steps ++ [e]) = step requests (run requests steps) e := run_append ..

lemma inv_run (steps : List Step) : Inv requests (run requests steps) := by
  induction steps using List.reverseRecOn with
  | nil => exact ⟨List.nodup_nil, by simp [live, run, State.empty]⟩
  | append_singleton steps e ih =>
    rw [run_concat]
    exact ih.step e

lemma marked_run (steps : List Step) (k : PyStr × PyStr) :
    Marked (run requests steps) k ↔ ∃ i, .start i ∈ steps ∧ (requests i).carries = true ∧
    (requests i).key = k := by
  induction steps using List.reverseRecOn with
  | nil => simp [Marked, run, State.empty]
  | append_singleton steps e ih =>
    rw [run_concat, marked_step, ih]
    constructor
    · rintro (⟨i, hi, h⟩ | ⟨i, rfl, h⟩)
      · exact ⟨i, List.mem_append_left _ hi, h⟩
      · exact ⟨i, by simp, h⟩
    · rintro ⟨i, hi, h⟩
      rcases List.mem_append.mp hi with hi | hi
      · exact .inl ⟨i, hi, h⟩
      · exact .inr ⟨i, (List.mem_singleton.mp hi).symm, h⟩

lemma opens_iff (steps : List Step) (i : ℕ) :
    Opens requests steps i ↔ (requests i).carries = true ∧
    ¬ Marked (run requests steps) (requests i).key := by
  rw [marked_run, Opens]
  simp

lemma mem_waiting_run {steps : List Step} (h : i ∈ (run requests steps).waiting) :
    ∃ before waits, steps = before ++ .start i :: waits ∧ Opens requests before i := by
  induction steps using List.reverseRecOn with
  | nil => simp [run, State.empty] at h
  | append_singleton steps e ih =>
    have hearlier (hi : i ∈ (run requests steps).waiting) :
        ∃ before waits, steps ++ [e] = before ++ .start i :: waits ∧ Opens requests before i := by
      obtain ⟨before, waits, rfl, hopens⟩ := ih hi
      exact ⟨before, waits ++ [e], by simp, hopens⟩
    rw [run_concat] at h
    cases e with
    | start j =>
      rcases start_cases requests (run requests steps) j with ⟨hs, -⟩ | ⟨hc, hm, hs⟩
      · rw [step, hs] at h
        exact hearlier h
      · rw [step, hs] at h
        rcases List.mem_append.mp h with hi | hi
        · exact hearlier hi
        · obtain rfl := List.mem_singleton.mp hi
          exact ⟨steps, [], rfl, (opens_iff steps i).mpr ⟨hc, hm⟩⟩
    | write j =>
      rw [step, write_waiting] at h
      exact hearlier (List.mem_of_mem_erase h)

lemma mem_waiting_of_opens {before waits : List Step} (hopens : Opens requests before i)
    (hwaits : .write i ∉ waits) :
    i ∈ (run requests (before ++ .start i :: waits)).waiting := by
  obtain ⟨hc, hm⟩ := (opens_iff before i).mp hopens
  induction waits using List.reverseRecOn with
  | nil =>
    rw [run_concat, step]
    rcases start_cases requests (run requests before) i with ⟨-, hskip⟩ | ⟨-, -, hs⟩
    · exact absurd (hskip hc) hm
    · rw [hs]
      simp
  | append_singleton waits e ih =>
    have hwait := ih fun h => hwaits (List.mem_append_left _ h)
    have hsplit : before ++ .start i :: (waits ++ [e]) =
      (before ++ .start i :: waits) ++ [e] := by simp
    rw [hsplit, run_concat]
    cases e with
    | start j =>
      rcases start_cases requests (run requests (before ++ .start i :: waits)) j with ⟨hs, -⟩ |
        ⟨-, -, hs⟩
      · rwa [step, hs]
      · rw [step, hs]
        exact List.mem_append_left _ hwait
    | write j =>
      have hne : i ≠ j := by
        rintro rfl
        simp at hwaits
      rw [step, write_waiting]
      exact (List.mem_erase_of_ne hne).mpr hwait

lemma not_live_of_failed {before after : List Step} (hi : i ∈ (run requests before).waiting)
    (hfail : (requests i).succeeds = false) : (requests i).key ∉
      live requests (run requests (before ++ .write i :: after)) := by
  have hinv := @inv_run requests before
  have hlive := live_write_failed requests hi hfail
  have hsplit : before ++ .write i :: after = (before ++ [.write i]) ++ after := by simp
  rw [hsplit, run_append, run_concat]
  refine dead_run ?_ ?_ after
  · exact (marked_step requests _ _ _).mpr
      (.inl (hinv.marked _ (hlive.mem_iff.mpr List.mem_cons_self)))
  · exact (List.nodup_cons.mp (hlive.nodup_iff.mp hinv.nodup)).1

/-- No record is written twice, and failed writes are made up for exactly if none is followed by a
request that could have written. -/
theorem capture_retries_iff (requests : ℕ → Request) (schedule : Schedule) :
    (AtMostOnce requests (run requests schedule.steps) ∧ Retried requests schedule.steps) ↔
    NoneLost requests schedule.steps := by
  have hinv := @inv_run requests schedule.steps
  have honce : AtMostOnce requests (run requests schedule.steps) := fun k =>
    List.nodup_iff_count_le_one.mp (List.nodup_append.mp hinv.nodup).2.1 k
  rw [and_iff_right honce]
  constructor
  · intro hretried before waits between after i j hsteps hopens hfail hc hkey
    by_contra hok
    have hwaits : Step.write i ∉ waits := by
      have hnodup := schedule.once
      rw [hsteps] at hnodup
      have hrest := (List.nodup_cons.mp (List.nodup_append.mp hnodup).2.1).2
      exact fun h => (List.nodup_append.mp hrest).2.2 _ h _ List.mem_cons_self rfl
    have hsplit : schedule.steps = (before ++ .start i :: waits) ++ .write i ::
        (between ++ .start j :: after) := by
      rw [hsteps]
      simp
    have hwait := mem_waiting_of_opens hopens hwaits
    have hlive := hretried _ between after i j hsplit hwait hfail hc hkey (by simpa using hok)
    rw [hsplit] at hlive
    exact not_live_of_failed hwait hfail hlive
  · intro hnone before between after i j hsteps hwait hfail hc hkey hok
    obtain ⟨front, waits, rfl, hopens⟩ := mem_waiting_run hwait
    have hlost := hnone front waits between after i j (by rw [hsteps]; simp) hopens hfail hc hkey
    rw [hok] at hlost
    exact absurd hlost (by decide)

/-- Two requests of one session and hash; the disk is full for the first. -/
def fullThenFree (n : ℕ) : Request where
  now := ⟨py "7.5", by decide⟩
  path := py "/v1/messages"
  sessionId := py "s1"
  payload := [(py "system", .str (py "x"))]
  sha := py "h1"
  disk := n != 0

/-- The second request could write the record, but nothing is ever written. -/
theorem failed_write_is_not_retried :
    (fullThenFree 1).key = (fullThenFree 0).key ∧ (fullThenFree 1).succeeds = true ∧
      (run fullThenFree [.start 0, .write 0, .start 1, .write 1]).file = [] ∧
      (run fullThenFree [.start 0, .write 0, .start 1, .write 1]).waiting = [] := by
  decide +kernel

end AgentTrajectory.SystemToolsCapture
