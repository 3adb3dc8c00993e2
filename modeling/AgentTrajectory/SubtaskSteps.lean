import AgentTrajectory.PyValue

/-! The steps of a subtask trajectory, put together from a bot's recorded steps: a model step and
the tool steps right behind it are one turn. -/
namespace AgentTrajectory.SubtaskSteps
open PyText PyDict PyJson PyValue

def contentParts : Json → List Json
  | .str s => [.str s]
  | .arr blocks => blocks.filterMap fun blk => match blk with
      | .obj b => if (getNone b (py "text")).truthy then some (getNone b (py "text")) else none
      | _ => none
  | _ => []

def messageParts (str : Json → PyStr) : Json → List Json
  | .obj m => contentParts (getNone m (py "content"))
  | v => [.str (str v)]

def textParts (str : Json → PyStr) (outputMessages : Json) : List Json :=
  match outputMessages with
  | .arr msgs => msgs.flatMap (messageParts str)
  | v => messageParts str v

def asText : Json → Except PyError PyStr
  | .str s => .ok s
  | _ => .error .typeError

/-- `_assistant_text`; `str` is Python's, for messages that are no dictionaries. -/
def assistantText (str : Json → PyStr) (outputMessages : Json) : Except PyError (Option PyStr) :=
  if outputMessages.truthy then
    (((textParts str outputMessages).filter Json.truthy).mapM asText).map fun texts =>
      let txt := strip (join (py "\n") texts)
      if txt = [] then none else some txt
  else .ok none

/-- A recorded step. -/
abbrev TrajStep := Dict PyStr Json

def isModel (s : TrajStep) : Bool := getNone s (py "type") == .str (py "model")
def isTool (s : TrajStep) : Bool := getNone s (py "type") == .str (py "tool")

inductive StepType where
  | toolInteraction
  | plainMessage
  deriving DecidableEq

structure ToolCall where
  name : Json
  args : Json
  deriving DecidableEq

structure Observation where
  toolResult : Json
  error : Json
  deriving DecidableEq

/-- What an actor does; `reasoning` is always null. -/
structure Action where
  text : Option PyStr
  toolCall : Option ToolCall
  deriving DecidableEq

/-- A step of the schema; `step_reward` is always null. -/
structure SchemaStep where
  idx : ℕ
  type : StepType
  actor : Json
  action : Option Action
  observation : Option Observation
  lossMask : ℕ
  deriving DecidableEq

def SchemaStep.text (e : SchemaStep) : Option PyStr := e.action.bind Action.text
def SchemaStep.toolCall (e : SchemaStep) : Option ToolCall := e.action.bind Action.toolCall

def toolCallOf (t : TrajStep) :
    ToolCall := ⟨getNone t (py "tool_name"), getNone t (py "tool_inputs")⟩
def observationOf (t : TrajStep) :
    Observation := ⟨getNone t (py "tool_outputs"), getNone t (py "error")⟩

def toolInteraction (idx : ℕ) (actor : Json) (t : TrajStep) (text : Option PyStr) : SchemaStep :=
  ⟨idx, .toolInteraction, actor, some ⟨text, some (toolCallOf t)⟩, some (observationOf t), 1⟩

def plainMessage (idx : ℕ) (actor : Json) (text : Option PyStr) : SchemaStep :=
  ⟨idx, .plainMessage, actor, some ⟨text, none⟩, none, 1⟩

section Aggregate
variable (str : Json → PyStr) (bot : Json)

def turn (k : ℕ) (text : Option PyStr) (tools : List TrajStep) : List SchemaStep :=
  tools.zipIdx.map fun t => toolInteraction (k + t.2) bot t.1 (if t.2 = 0 then text else none)

def aggregateFrom (k : ℕ) : List TrajStep → Except PyError (List SchemaStep)
  | [] => .ok []
  | s :: rest =>
      if isModel s then do
        let text ← assistantText str (getNone s (py "output_messages"))
        let tools := rest.takeWhile isTool
        if tools = [] then
          let out ← aggregateFrom (k + 1) rest
          return plainMessage k bot text :: out
        else
          let out ← aggregateFrom (k + tools.length) (rest.dropWhile isTool)
          return turn bot k text tools ++ out
      else if isTool s then do
        let out ← aggregateFrom (k + 1) rest
        return toolInteraction k bot s none :: out
      else aggregateFrom k rest
termination_by steps => steps.length
decreasing_by
  · simp
  · have := (List.dropWhile_sublist isTool (l := rest)).length_le
    simp only [List.length_cons]
    omega
  · simp
  · simp

def aggregateSteps (steps : List TrajStep) :
    Except PyError (List SchemaStep) := aggregateFrom str bot 0 steps

end Aggregate

section Entries
variable (text : TrajStep → Option PyStr) (bot : Json)

/-- The entries of the steps, each by itself. A model step in front of a tool waits for it with its
text. -/
def entriesFrom (waiting : Option TrajStep) (k : ℕ) : List TrajStep → List SchemaStep
  | [] => []
  | s :: rest =>
      if isModel s then
        if rest.head?.any isTool then entriesFrom (some s) k rest
        else plainMessage k bot (text s) :: entriesFrom none (k + 1) rest
      else if isTool s then toolInteraction k bot s (waiting.bind text) ::
        entriesFrom none (k + 1) rest
      else entriesFrom none k rest

end Entries

variable {str : Json → PyStr} {bot : Json} {text : TrajStep → Option PyStr}

lemma isModel_of_isTool {s : TrajStep} (h : isTool s = true) : isModel s = false := by
  rw [isTool, beq_iff_eq] at h
  rw [isModel, h]
  decide +kernel

lemma isTool_of_isModel {s : TrajStep} (h : isModel s = true) : isTool s = false := by
  by_contra htool
  rw [isModel_of_isTool (by simpa using htool)] at h
  simp at h

lemma entriesFrom_tools {tools : List TrajStep} (htools : ∀ t ∈ tools, isTool t = true) (k : ℕ)
    (rest : List TrajStep) :
    entriesFrom text bot none k (tools ++ rest) =
      (tools.zipIdx k).map (fun t => toolInteraction t.2 bot t.1 none) ++
        entriesFrom text bot none (k + tools.length) rest := by
  induction tools generalizing k with
  | nil => rfl
  | cons t tools ih =>
    have ht := htools t List.mem_cons_self
    rw [List.cons_append, entriesFrom, if_neg (by simp [isModel_of_isTool ht]), if_pos ht,
      ih (fun t' ht' => htools t' (List.mem_cons_of_mem _ ht')), List.zipIdx_cons,
        List.map_cons, List.length_cons]
    simp [Nat.add_assoc, Nat.add_comm 1]

lemma turn_cons (k : ℕ) (t : Option PyStr) (tool : TrajStep) (tools : List TrajStep) :
    turn bot k t (tool :: tools) =
      toolInteraction k bot tool t :: (tools.zipIdx (k + 1)).map fun t =>
        toolInteraction t.2 bot t.1 none := by
  rw [turn, List.zipIdx_cons, List.map_cons, if_pos rfl, List.zipIdx_eq_map_add (i := k + 1),
    List.zipIdx_eq_map_add (i := 0 + 1),
    List.map_map, List.map_map]
  congr 1
  refine List.map_congr_left fun p _ => ?_
  simp only [Function.comp_apply]
  rw [if_neg (by omega), show k + (0 + 1 + p.2) = k + 1 + p.2 by omega]

lemma entriesFrom_turn {tools : List TrajStep} (htools : ∀ t ∈ tools, isTool t = true)
    (hne : tools ≠ []) (s : TrajStep) (k : ℕ) (rest : List TrajStep) :
    entriesFrom text bot (some s) k (tools ++ rest) =
      turn bot k (text s) tools ++ entriesFrom text bot none (k + tools.length) rest := by
  obtain ⟨tool, tools, rfl⟩ := List.exists_cons_of_ne_nil hne
  have htool := htools tool List.mem_cons_self
  rw [List.cons_append, entriesFrom, if_neg (by simp [isModel_of_isTool htool]), if_pos htool,
    entriesFrom_tools fun t' ht' => htools t' (List.mem_cons_of_mem _ ht'),
      turn_cons, List.length_cons]
  simp [Nat.add_assoc, Nat.add_comm 1]

/-- Every part that goes into the text of the step is a string: no block has another value for its
text. -/
def Readable (str : Json → PyStr) (s : TrajStep) : Prop :=
  ∀ p ∈ textParts str (getNone s (py "output_messages")), ∃ u, p = .str u

/-- The text of a model step, where it can be read. -/
def textOf (str : Json → PyStr) (s : TrajStep) : Option PyStr :=
  (assistantText str (getNone s (py "output_messages"))).toOption.join

lemma contentParts_spec {v p : Json} (h : p ∈ contentParts v) :
    (∃ u, p = .str u) ∨ p.truthy = true := by
  cases v with
  | str s => exact .inl ⟨s, List.mem_singleton.mp h⟩
  | arr blocks =>
    obtain ⟨blk, -, hblk⟩ := List.mem_filterMap.mp h
    cases blk with
    | obj b =>
      simp only at hblk
      split_ifs at hblk with ht
      exact .inr (Option.some.inj hblk ▸ ht)
    | _ => simp at hblk
  | _ => simp [contentParts] at h

lemma messageParts_spec {v p : Json} (h : p ∈ messageParts str v) :
    (∃ u, p = .str u) ∨ p.truthy = true := by
  cases v with
  | obj m => exact contentParts_spec h
  | _ => exact .inl ⟨_, List.mem_singleton.mp h⟩

lemma textParts_spec {v p : Json} (h : p ∈ textParts str v) :
    (∃ u, p = .str u) ∨ p.truthy = true := by
  by_cases harr : ∃ msgs, v = .arr msgs
  · obtain ⟨msgs, rfl⟩ := harr
    obtain ⟨m, -, hm⟩ := List.mem_flatMap.mp h
    exact messageParts_spec hm
  · have hone : textParts str v = messageParts str v := by
      cases v with
      | arr msgs => exact absurd ⟨msgs, rfl⟩ harr
      | _ => rfl
    exact messageParts_spec (hone ▸ h)

lemma textParts_of_not_truthy {v : Json} (hv : v.truthy = false) :
    ∀ p ∈ textParts str v, ∃ u, p = .str u := by
  intro p hp
  cases v with
  | arr msgs =>
    obtain rfl : msgs = [] := by simpa [Json.truthy] using hv
    simp [textParts] at hp
  | obj m =>
    obtain rfl : m = [] := by simpa [Json.truthy] using hv
    simp [textParts, messageParts, getNone, get?, contentParts] at hp
  | _ => exact ⟨_, List.mem_singleton.mp hp⟩

lemma asText_isOk {p : Json} : (asText p).isOk = true ↔ ∃ u, p = .str u := by
  cases p <;> simp [asText, Except.isOk, Except.toBool]

lemma readable_iff {s : TrajStep} :
    Readable str s ↔ ∃ t, assistantText str (getNone s (py "output_messages")) = .ok t := by
  rw [Readable]
  generalize getNone s (py "output_messages") = v
  rw [assistantText]
  split_ifs with hv
  · constructor
    · intro h
      obtain ⟨texts, htexts⟩ := exists_mapM_eq_ok.mpr fun p hp =>
        asText_isOk.mpr (h p (List.mem_filter.mp hp).1)
      exact ⟨_, map_eq_ok.mpr ⟨texts, htexts, rfl⟩⟩
    · rintro ⟨t, ht⟩ p hp
      obtain ⟨texts, htexts, -⟩ := map_eq_ok.mp ht
      rcases textParts_spec hp with hstr | htruthy
      · exact hstr
      · exact asText_isOk.mp (exists_mapM_eq_ok.mp ⟨texts,
          htexts⟩ p (List.mem_filter.mpr ⟨hp, htruthy⟩))
  · exact iff_of_true (textParts_of_not_truthy (by simpa using hv)) ⟨none, rfl⟩

lemma assistantText_eq {s : TrajStep} (h : Readable str s) :
    assistantText str (getNone s (py "output_messages")) = .ok (textOf str s) := by
  obtain ⟨t, ht⟩ := readable_iff.mp h
  rw [textOf, ht]
  rfl

lemma isTool_of_mem_takeWhile {rest : List TrajStep} :
    ∀ t ∈ rest.takeWhile isTool, isTool t = true :=
  fun _ ht => List.mem_takeWhile_imp ht

lemma head?_of_takeWhile_eq_nil {rest : List TrajStep} (h : rest.takeWhile isTool = []) :
    rest.head?.any isTool = false := by
  cases rest with
  | nil => rfl
  | cons s rest =>
    by_cases hs : isTool s = true
    · rw [List.takeWhile_cons_of_pos hs] at h
      simp at h
    · simpa using hs

lemma head?_of_takeWhile_ne_nil {rest : List TrajStep} (h : rest.takeWhile isTool ≠ []) :
    rest.head?.any isTool = true := by
  cases rest with
  | nil => simp at h
  | cons s rest =>
    by_cases hs : isTool s = true
    · simpa using hs
    · rw [List.takeWhile_cons_of_neg hs] at h
      simp at h

lemma aggregateFrom_eq {steps : List TrajStep} (h : ∀ s ∈ steps, isModel s = true →
    Readable str s) (k : ℕ) :
    aggregateFrom str bot k steps = .ok (entriesFrom (textOf str) bot none k steps) := by
  induction hn : steps.length using Nat.strong_induction_on generalizing steps k with
  | _ n ih =>
    cases steps with
    | nil => rw [aggregateFrom, entriesFrom]
    | cons s rest =>
      have hrest : ∀ s' ∈ rest, isModel s' = true → Readable str s' := fun s' hs' =>
        h s' (List.mem_cons_of_mem _ hs')
      have hnext := fun k => ih rest.length (by rw [← hn]; exact Nat.lt_succ_self _) hrest k rfl
      by_cases hmodel : isModel s = true
      · rw [aggregateFrom, if_pos hmodel, assistantText_eq (h s List.mem_cons_self hmodel),
          entriesFrom, if_pos hmodel]
        by_cases htools : rest.takeWhile isTool = []
        · rw [if_neg (by simp [head?_of_takeWhile_eq_nil htools])]
          show (if rest.takeWhile isTool = [] then _ else _ : Except PyError (List SchemaStep)) = _
          rw [if_pos htools, hnext]
          rfl
        · have hsplit : rest.takeWhile isTool ++ rest.dropWhile isTool = rest :=
            List.takeWhile_append_dropWhile
          have hbehind := ih (rest.dropWhile isTool).length (by
            have := (List.dropWhile_sublist isTool (l := rest)).length_le
            rw [← hn, List.length_cons]
            omega) (fun s' hs' => hrest s' ((List.dropWhile_sublist isTool).mem hs'))
              (k + (rest.takeWhile isTool).length) rfl
          have hturn := @entriesFrom_turn bot (textOf str) _ isTool_of_mem_takeWhile htools s
            k (rest.dropWhile isTool)
          rw [hsplit] at hturn
          rw [if_pos (head?_of_takeWhile_ne_nil htools), hturn]
          show (if rest.takeWhile isTool = [] then _ else _ : Except PyError (List SchemaStep)) = _
          rw [if_neg htools, hbehind]
          rfl
      · rw [aggregateFrom, if_neg hmodel, entriesFrom, if_neg hmodel]
        split_ifs with htool
        · rw [hnext]
          rfl
        · exact hnext k

lemma readable_of_aggregateFrom {steps : List TrajStep} {k : ℕ} {out : List SchemaStep}
    (h : aggregateFrom str bot k steps = .ok out) : ∀ s ∈ steps,
    isModel s = true → Readable str s := by
  induction hn : steps.length using Nat.strong_induction_on generalizing steps k out with
  | _ n ih =>
    cases steps with
    | nil => simp
    | cons s rest =>
      have hrest : ∀ {k out}, aggregateFrom str bot k rest = .ok out → ∀ s' ∈ rest,
        isModel s' = true → Readable str s' :=
        fun hok => ih rest.length (by rw [← hn]; exact Nat.lt_succ_self _) hok rfl
      by_cases hmodel : isModel s = true
      · rw [aggregateFrom, if_pos hmodel] at h
        obtain ⟨t, ht, h⟩ := bind_eq_ok.mp h
        have hs : Readable str s := readable_iff.mpr ⟨t, ht⟩
        have hbehind : ∀ s' ∈ rest, isModel s' = true → Readable str s' := by
          dsimp only at h
          split_ifs at h with htools
          · obtain ⟨out', hout, -⟩ := bind_eq_ok.mp h
            exact hrest hout
          · obtain ⟨out', hout, -⟩ := bind_eq_ok.mp h
            have hlt : (rest.dropWhile isTool).length < n := by
              have := (List.dropWhile_sublist isTool (l := rest)).length_le
              rw [← hn, List.length_cons]
              omega
            intro s' hs' hm
            rw [← List.takeWhile_append_dropWhile (p := isTool) (l := rest)] at hs'
            rcases List.mem_append.mp hs' with hs' | hs'
            · rw [isModel_of_isTool (isTool_of_mem_takeWhile s' hs')] at hm
              simp at hm
            · exact ih _ hlt hout rfl s' hs' hm
        exact fun s' hs' hm => (List.mem_cons.mp hs').elim (fun he => he ▸ hs) fun hs' =>
          hbehind s' hs' hm
      · rw [aggregateFrom, if_neg hmodel] at h
        have hbehind : ∀ s' ∈ rest, isModel s' = true → Readable str s' := by
          split_ifs at h with htool
          · obtain ⟨out', hout, -⟩ := bind_eq_ok.mp h
            exact hrest hout
          · exact hrest h
        exact fun s' hs' hm => (List.mem_cons.mp hs').elim (fun he =>
          absurd (he ▸ hm) hmodel) fun hs' => hbehind s' hs' hm

def modelTurns : List TrajStep → List (TrajStep × Option TrajStep)
  | [] => []
  | s :: rest => if isModel s then (s, rest.head?) :: modelTurns rest else modelTurns rest

/-- The entry is the first of a model step's turn: it has the text, and is made from the tool step
right behind the model step or, where there is none, a plain message. -/
def Opens (text : TrajStep → Option PyStr) (e : SchemaStep) (m : TrajStep × Option TrajStep) :
    Prop :=
  e.text = text m.1 ∧ match m.2.filter isTool with
    | some t => e.type = .toolInteraction ∧ e.toolCall = some (toolCallOf t) ∧
      e.observation = some (observationOf t)
    | none => e.type = .plainMessage

/-- What `aggregate_steps` promises: entries numbered by their positions, the tool steps in order,
and for every model step one entry that opens its turn, all others being tool interactions without a
text. -/
structure Conserves (text : TrajStep → Option PyStr) (steps : List TrajStep)
    (out : List SchemaStep) : Prop where
  numbered : ∀ (k : ℕ) (e : SchemaStep), out[k]? = some e → e.idx = k
  tools : (out.filter fun e => e.type = .toolInteraction).map (fun e =>
    (e.toolCall, e.observation)) =
    (steps.filter isTool).map fun t => (some (toolCallOf t), some (observationOf t))
  texts : ∃ first : List ℕ, first.Pairwise (· < ·) ∧
    List.Forall₂ (fun k m => ∃ e, out[k]? = some e ∧ Opens text e m) first (modelTurns steps) ∧
      ∀ (k : ℕ) (e : SchemaStep), out[k]? = some e → k ∉ first →
        e.type = .toolInteraction ∧ e.text = none

lemma entriesFrom_numbered (waiting : Option TrajStep) (k : ℕ) (steps : List TrajStep) :
    ∀ j e, (entriesFrom text bot waiting k steps)[j]? = some e → e.idx = k + j := by
  induction steps generalizing waiting k with
  | nil => simp [entriesFrom]
  | cons s rest ih =>
    have hcons : ∀ (first : SchemaStep), first.idx = k → ∀ j e,
        (first :: entriesFrom text bot none (k + 1) rest)[j]? = some e → e.idx = k + j := by
      intro first hfirst j e he
      cases j with
      | zero => rw [← Option.some.inj he, hfirst, Nat.add_zero]
      | succ j => rw [ih none (k + 1) j e he, Nat.add_assoc, Nat.add_comm 1]
    rw [entriesFrom]
    split_ifs
    · exact ih _ k
    · exact hcons _ rfl
    · exact hcons _ rfl
    · exact ih _ k

lemma entriesFrom_tools_eq (waiting : Option TrajStep) (k : ℕ) (steps : List TrajStep) :
    ((entriesFrom text bot waiting k steps).filter fun e => e.type = .toolInteraction).map
        (fun e => (e.toolCall, e.observation)) =
      (steps.filter isTool).map fun t => (some (toolCallOf t), some (observationOf t)) := by
  induction steps generalizing waiting k with
  | nil => rfl
  | cons s rest ih =>
    rw [entriesFrom]
    by_cases hmodel : isModel s = true
    · have htool := isTool_of_isModel hmodel
      rw [if_pos hmodel, List.filter_cons_of_neg (by simp [htool])]
      split_ifs
      · exact ih _ k
      · rw [List.filter_cons_of_neg (by simp [plainMessage])]
        exact ih _ (k + 1)
    · rw [if_neg hmodel]
      split_ifs with htool
      · rw [List.filter_cons_of_pos (by simp [toolInteraction]), List.filter_cons_of_pos htool,
          List.map_cons, List.map_cons, ih none (k + 1)]
        rfl
      · rw [List.filter_cons_of_neg htool]
        exact ih _ k

/-- The turns that the entries of the steps open: also that of a model step which waits for a tool.
-/
def openTurns (waiting : Option TrajStep) (steps : List TrajStep) :
    List (TrajStep × Option TrajStep) :=
  (if steps.head?.any isTool then (waiting.map fun s => (s, steps.head?)).toList else []) ++
    modelTurns steps

/-- Some positions, in order, open the turns, and every other entry is a tool interaction without
text. -/
def TurnsOpened (text : TrajStep → Option PyStr) (out : List SchemaStep)
    (turns : List (TrajStep × Option TrajStep)) : Prop :=
  ∃ first : List ℕ, first.Pairwise (· < ·) ∧ List.Forall₂ (fun k m => ∃ e, out[k]? = some e ∧
    Opens text e m) first turns ∧
    ∀ k e, out[k]? = some e → k ∉ first → e.type = .toolInteraction ∧ e.text = none

section Cons
variable {out : List SchemaStep} {turns : List (TrajStep × Option TrajStep)}
    {e : SchemaStep} {first : List ℕ}

lemma pairwise_shift (h : first.Pairwise (· < ·)) : (first.map (· + 1)).Pairwise (· < ·) :=
  List.pairwise_map.mpr (h.imp fun h => Nat.succ_lt_succ h)

lemma opens_shift (h : List.Forall₂ (fun k m => ∃ e, out[k]? = some e ∧
    Opens text e m) first turns) :
    List.Forall₂ (fun k m => ∃ e', (e :: out)[k]? = some e' ∧ Opens text e' m)
    (first.map (· + 1)) turns :=
  List.forall₂_map_left_iff.mpr (h.imp fun _ _ h => h)

lemma TurnsOpened.cons_turn (h : TurnsOpened text out turns)
    {m : TrajStep × Option TrajStep} (hm : Opens text e m) :
    TurnsOpened text (e :: out) (m :: turns) := by
  obtain ⟨first, hsorted, hopens, hothers⟩ := h
  refine ⟨0 :: first.map (· + 1), List.pairwise_cons.mpr ⟨fun j hj => ?_, pairwise_shift hsorted⟩,
    .cons ⟨e, rfl, hm⟩ (opens_shift hopens), fun k e' he' hk => ?_⟩
  · obtain ⟨i, -, rfl⟩ := List.mem_map.mp hj
    exact Nat.succ_pos i
  · cases k with
    | zero => simp at hk
    | succ k =>
      exact hothers k e' he' fun hmem => hk (List.mem_cons_of_mem _ (List.mem_map_of_mem hmem))

lemma TurnsOpened.cons_tool (h : TurnsOpened text out turns)
    (he : e.type = .toolInteraction ∧ e.text = none) :
    TurnsOpened text (e :: out) turns := by
  obtain ⟨first, hsorted, hopens, hothers⟩ := h
  refine ⟨first.map (· + 1), pairwise_shift hsorted, opens_shift hopens, fun k e' he' hk => ?_⟩
  cases k with
  | zero => exact Option.some.inj he' ▸ he
  | succ k => exact hothers k e' he' fun hmem => hk (List.mem_map_of_mem hmem)

end Cons

lemma entriesFrom_texts (waiting : Option TrajStep) (k : ℕ) (steps : List TrajStep) :
    TurnsOpened text (entriesFrom text bot waiting k steps) (openTurns waiting steps) := by
  induction steps generalizing waiting k with
  | nil => exact ⟨[], .nil, .nil, by simp [entriesFrom]⟩
  | cons s rest ih =>
    have hnone : ∀ {l : List TrajStep}, openTurns none l = modelTurns l :=
      fun {l} => by simp [openTurns]
    by_cases hmodel : isModel s = true
    · have htool := isTool_of_isModel hmodel
      have hturns : openTurns waiting (s :: rest) = (s, rest.head?) :: modelTurns rest := by
        simp [openTurns, htool, modelTurns, hmodel]
      rw [entriesFrom, if_pos hmodel, hturns]
      split_ifs with hnext
      · have hwait : openTurns (some s) rest = (s, rest.head?) :: modelTurns rest := by
          simp [openTurns, hnext]
        rw [← hwait]
        exact ih (some s) k
      · have hrest := ih none (k + 1)
        rw [hnone] at hrest
        refine hrest.cons_turn ⟨rfl, ?_⟩
        have hfilter : rest.head?.filter isTool = none := by
          cases hh : rest.head? with
          | none => rfl
          | some t => simpa [hh, Option.filter] using hnext
        rw [hfilter]
        rfl
    · have hturns : modelTurns (s :: rest) = modelTurns rest := by rw [modelTurns, if_neg hmodel]
      rw [entriesFrom, if_neg hmodel]
      split_ifs with htool
      · have hrest := ih none (k + 1)
        rw [hnone] at hrest
        cases waiting with
        | none =>
          rw [hnone, hturns]
          exact hrest.cons_tool ⟨rfl, rfl⟩
        | some m =>
          have hwait : openTurns (some m) (s :: rest) = (m, some s) :: modelTurns rest := by
            simp [openTurns, htool, hturns]
          rw [hwait]
          refine hrest.cons_turn ⟨rfl, ?_⟩
          have hfilter : (some s).filter isTool = some s := by simp [Option.filter, htool]
          rw [hfilter]
          exact ⟨rfl, rfl, rfl⟩
      · have hturns' : openTurns waiting (s :: rest) = openTurns none rest := by
          simp [openTurns, htool, hturns]
        rw [hturns']
        exact ih none k

/-- The steps are put together as promised exactly when every block text of a model step is a
string. -/
theorem aggregateSteps_conserves_iff (str : Json → PyStr) (bot : Json) (steps : List TrajStep) :
    (∃ out, aggregateSteps str bot steps = .ok out ∧ Conserves (textOf str) steps out) ↔
      ∀ s ∈ steps, isModel s = true → Readable str s := by
  constructor
  · rintro ⟨out, hout, -⟩
    exact readable_of_aggregateFrom hout
  · intro h
    refine ⟨_, aggregateFrom_eq h 0, ⟨fun k e he => ?_, entriesFrom_tools_eq none 0 steps, ?_⟩⟩
    · rw [entriesFrom_numbered none 0 steps k e he, Nat.zero_add]
    · have htexts := @entriesFrom_texts bot (textOf str) none 0 steps
      rwa [openTurns, Option.map_none, Option.toList_none, ite_self, List.nil_append] at htexts

/-- A model step whose block has a text in a nested object. -/
def nestedText : TrajStep :=
  [(py "type", .str (py "model")),
    (py "output_messages", .arr [.obj [(py "content", .arr [.obj [(py "type", .str (py "text")),
    (py "text", .obj [(py "value", .str (py "hi"))])]])]])]

/-- The text of a block is an object: `join` fails and no step is put together. -/
theorem nested_text_stops_aggregation :
    aggregateSteps (fun _ => []) (.str (py "bot"))
    [nestedText, [(py "type", .str (py "tool"))]] = .error .typeError := by
  have htext : assistantText (fun _ => [])
      (getNone nestedText (py "output_messages")) = .error .typeError := by
    decide +kernel
  have hmodel : isModel nestedText = true := by decide +kernel
  rw [aggregateSteps, aggregateFrom, if_pos hmodel, htext]
  rfl

end AgentTrajectory.SubtaskSteps
