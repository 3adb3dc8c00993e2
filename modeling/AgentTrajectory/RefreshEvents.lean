import AgentTrajectory.PyJsonLines
import AgentTrajectory.PyJsonUnicode

/-! `refresh_runtime_events.py`: the cache file of fetched chat events. Every call reads the file
that the call before it wrote, overrides the rows whose messages were fetched again and writes the
rows back in the order of their times. -/
namespace AgentTrajectory.RefreshEvents
open PyText PyDict PyJson PyValue

/-- The times of events: how the interpreter prints one and what `float` makes of it. -/
structure Clock (τ : Type) where
  repr : τ → PyStr
  float : Json → Except PyError τ
  repr_lit : ∀ t, floatLit (repr t) = true
  float_repr : ∀ t, float (orEmpty (.float (repr t)) (.int 0)) = .ok t

/-- An event of `fetch_history`. -/
structure Event (τ : Type) where
  ts : τ
  role : PyStr
  who : PyStr
  name : PyStr
  kind : Option PyStr
  msgId : PyStr
  parentId : PyStr
  text : PyStr
  deriving DecidableEq

variable {τ : Type} (clock : Clock τ)

def row (e : Event τ) : Dict PyStr Json :=
  [(py "ts", .float (clock.repr e.ts)), (py "role", .str e.role), (py "who", .str e.who),
    (py "name", .str e.name),
    (py "kind", (e.kind.map Json.str).getD .null), (py "msg_id", .str e.msgId),
      (py "parent_id", .str e.parentId),
    (py "task_id", .str []), (py "thread_id", .str []), (py "text", .str e.text)]

def loadJsonl : Option PyStr → Except PyError (List Json)
  | none => .ok []
  | some text => readJsonLines text

/-- `_write_jsonl`: the text of the file that takes the place of the old one. -/
def writeJsonl (rows : List (Dict PyStr Json)) : Except PyError PyStr :=
  let text := jsonLines (rows.map .obj)
  if (encodeUtf8 text).isSome then .ok text else .error .unicodeEncodeError

/-- `by_id[row["msg_id"]] = row` where there is an id. -/
def noteRow (byId : Dict Json (Dict PyStr Json)) (row : Dict PyStr Json) :
    Except PyError (Dict Json (Dict PyStr Json)) :=
  let mid := getNone row (py "msg_id")
  if mid.truthy then if hashable mid then .ok (set byId mid row) else
    .error .typeError else .ok byId

structure Refreshed where
  text : PyStr
  fetched : ℕ
  cached : ℕ
  deriving DecidableEq

/-- `refresh`: the new file and the counts that are reported. -/
def refresh [LinearOrder τ] (file : Option PyStr) (fetched : List (Dict PyStr Json)) :
    Except PyError Refreshed := do
  let existing ← (← loadJsonl file).mapM asDict
  let byId ← existing.foldlM noteRow []
  let byId ← fetched.foldlM noteRow byId
  let timed ← byId.mapM fun p =>
    (clock.float (orEmpty (getNone p.2 (py "ts")) (.int 0))).map fun t => (t, p.2)
  let rows := (timed.insertionSort fun a b => a.1 ≤ b.1).map Prod.snd
  let text ← writeJsonl rows
  return ⟨text, fetched.length, rows.length⟩

def latest (history : List (Event τ)) (mid : PyStr) :
    Option (Event τ) := (history.filter fun e => e.msgId = mid).getLast?

structure Current [LinearOrder τ] (rows history : List (Event τ)) : Prop where
  sorted : rows.Pairwise fun a b => a.ts ≤ b.ts
  distinct : (rows.map Event.msgId).Nodup
  mem_iff : ∀ e, e ∈ rows ↔ e.msgId ≠ [] ∧ latest history e.msgId = some e

def fileOf (rows : List (Event τ)) : PyStr := jsonLines (rows.map fun e => .obj (row clock e))

def Holds [LinearOrder τ] (text : PyStr) (history : List (Event τ)) :
    Prop := ∃ rows, Current rows history ∧ text = fileOf clock rows

/-- Every call succeeds, and the file then holds what was fetched up to it. -/
def Keeps [LinearOrder τ] : Option PyStr → List (Event τ) → List (List (Event τ)) → Prop
  | _, _, [] => True
  | file, history, fetched :: calls =>
      ∃ r, refresh clock file (fetched.map (row clock)) = .ok r ∧
        Holds clock r.text (history ++ fetched) ∧
        Keeps (some r.text) (history ++ fetched) calls

def strings (e : Event τ) :
    List PyStr := [e.role, e.who, e.name, e.kind.getD [], e.msgId, e.parentId, e.text]

def encodable (e : Event τ) : Bool := (strings e).all scalars

def unbroken (e : Event τ) : Bool := (strings e).all seamless

def Lasts (fetched : List (Event τ)) (e : Event τ) :
    Prop := e.msgId ≠ [] ∧ latest fetched e.msgId = some e

/-- What a call leaves can be written, and unless it is the last call it can be read again. -/
def Readable : List (List (Event τ)) → Prop
  | [] => True
  | fetched :: calls =>
      (∀ e, Lasts fetched e → encodable e = true ∧ (calls ≠ [] → unbroken e = true)) ∧
        Readable calls

lemma wf_row (e : Event τ) : (Json.obj (row clock e)).wf = true := by
  have hkeys : (keys (row clock e)).Nodup := by
    change [py "ts", py "role", py "who", py "name", py "kind", py "msg_id", py "parent_id",
      py "task_id", py "thread_id",
      py "text"].Nodup
    decide
  have hkind : ((e.kind.map Json.str).getD .null).wf = true := by cases e.kind <;> rfl
  simp only [Json.wf, hkeys, decide_true, Bool.true_and]
  simp [row, Json.wfPairs, clock.repr_lit, hkind, Json.wf]

lemma oneLine_row (e : Event τ) : oneLine (Json.obj (row clock e)).dumps = unbroken e := by
  have hkind : ((e.kind.map Json.str).getD .null).texts.all seamless =
      seamless (e.kind.getD []) := by
    cases e.kind <;> simp [Json.texts, seamless]
  have hkey : [py "ts", py "role", py "who", py "name", py "kind", py "msg_id", py "parent_id",
    py "task_id", py "thread_id",
      py "text", []].all seamless = true := by decide
  simp only [List.all_cons, List.all_nil, Bool.and_true, Bool.and_eq_true] at hkey
  rw [oneLine_dumps (wf_row clock e), unbroken, strings]
  simp only [row, Json.texts, Json.textsPairs, List.all_cons, List.all_append, List.all_nil, hkind,
    hkey, Bool.true_and, Bool.and_true]

lemma scalars_row (e : Event τ) : scalars (Json.obj (row clock e)).dumps = encodable e := by
  have hkind : ((e.kind.map Json.str).getD .null).unicode = scalars (e.kind.getD []) := by
    cases e.kind <;> simp [Json.unicode]
  have hkey : [py "ts", py "role", py "who", py "name", py "kind", py "msg_id", py "parent_id",
    py "task_id", py "thread_id",
      py "text", []].all scalars = true := by decide
  simp only [List.all_cons, List.all_nil, Bool.and_true, Bool.and_eq_true] at hkey
  rw [scalars_dumps, encodable, strings]
  simp only [row, Json.unicode, Json.unicodePairs, List.all_cons, List.all_nil, hkind, hkey,
    Bool.true_and, Bool.and_true, scalars_floatLit (clock.repr_lit e.ts)]

lemma scalars_fileOf (rows : List (Event τ)) :
    scalars (fileOf clock rows) = rows.all encodable := by
  rw [fileOf, jsonLines, List.flatMap_map]
  induction rows with
  | nil => rfl
  | cons e rows ih =>
    rw [List.flatMap_cons, scalars_append, scalars_append, scalars_row, ih, List.all_cons]
    simp [show scalars [cp '\n'] = true by decide]

def note (d : Dict PyStr (Event τ)) (e : Event τ) :
    Dict PyStr (Event τ) := if e.msgId = [] then d else set d e.msgId e

def byId (es : List (Event τ)) : Dict PyStr (Event τ) := es.foldl note []

def image (d : Dict PyStr (Event τ)) :
    Dict Json (Dict PyStr Json) := d.map fun p => (.str p.1, row clock p.2)

lemma set_image (d : Dict PyStr (Event τ)) (k : PyStr) (e : Event τ) :
    set (image clock d) (.str k) (row clock e) = image clock (set d k e) := by
  induction d with
  | nil => rfl
  | cons p d ih =>
    obtain ⟨j, w⟩ := p
    simp only [image, List.map_cons, PyDict.set, Json.str.injEq] at ih ⊢
    split_ifs with h
    · rfl
    · rw [ih]
      rfl

lemma noteRow_row (d : Dict PyStr (Event τ)) (e : Event τ) :
    noteRow (image clock d) (row clock e) = .ok (image clock (note d e)) := by
  have hmid : getNone (row clock e) (py "msg_id") = .str e.msgId := rfl
  rw [noteRow, note, hmid]
  by_cases h : e.msgId = []
  · simp [h, Json.truthy]
  · simp [h, Json.truthy, hashable, set_image]

lemma foldlM_noteRow (es : List (Event τ)) (d : Dict PyStr (Event τ)) :
    (es.map (row clock)).foldlM noteRow (image clock d) = .ok (image clock (es.foldl note d)) := by
  induction es generalizing d with
  | nil => rfl
  | cons e es ih =>
    rw [List.map_cons, List.foldlM_cons, noteRow_row, List.foldl_cons]
    exact ih _

lemma mapM_times (d : Dict PyStr (Event τ)) :
    (image clock d).mapM (fun p =>
      (clock.float (orEmpty (getNone p.2 (py "ts")) (.int 0))).map fun t => (t, p.2)) =
      .ok (d.map fun p => (p.2.ts, row clock p.2)) := by
  rw [mapM_eq_ok, image, List.forall₂_map_left_iff, List.forall₂_map_right_iff, List.forall₂_same]
  intro p _
  have hts : getNone (row clock p.2) (py "ts") = .float (clock.repr p.2.ts) := rfl
  rw [hts, clock.float_repr]
  rfl

lemma latest_append (a b : List (Event τ)) (mid : PyStr) :
    latest (a ++ b) mid = (latest b mid).or (latest a mid) := by
  rw [latest, List.filter_append, List.getLast?_append]
  rfl

lemma mem_of_latest {history : List (Event τ)} {mid : PyStr} {e : Event τ}
    (h : latest history mid = some e) :
    e ∈ history ∧ e.msgId = mid := by
  simpa using List.mem_filter.mp (List.mem_of_getLast? h)

lemma byId_spec (es : List (Event τ)) :
    (keys (byId es)).Nodup ∧ ∀ mid, get? (byId es) mid = if mid = [] then
      none else latest es mid := by
  induction es using List.reverseRecOn with
  | nil => simp [byId, keys, latest]
  | append_singleton es e ih =>
    have hstep : byId (es ++ [e]) = note (byId es) e := by simp [byId]
    obtain ⟨hnodup, hget⟩ := ih
    rw [hstep, note]
    split_ifs with hid
    · refine ⟨hnodup, fun mid => ?_⟩
      rw [hget, latest_append]
      split_ifs with hmid
      · rfl
      · simp [latest, hid, Ne.symm hmid]
    · refine ⟨keys_nodup_set hnodup _ _, fun mid => ?_⟩
      rw [get?_set, hget, latest_append]
      by_cases hmid : e.msgId = mid
      · subst hmid
        simp [latest, hid]
      · simp [latest, hmid]

def Matches (file : Option PyStr) (rows : List (Event τ)) :
    Prop := file = some (fileOf clock rows) ∨ file = none ∧ rows = []

lemma loadJsonl_matches {file : Option PyStr} {rows : List (Event τ)} (h : Matches clock file rows)
    (hline : ∀ e ∈ rows, unbroken e = true) : loadJsonl file = .ok (rows.map fun e =>
      .obj (row clock e)) := by
  rcases h with rfl | ⟨rfl, rfl⟩
  · refine readJsonLines_jsonLines (fun v hv => ?_) fun v hv => ?_
    · obtain ⟨e, -, rfl⟩ := List.mem_map.mp hv
      exact wf_row clock e
    · obtain ⟨e, he, rfl⟩ := List.mem_map.mp hv
      rw [oneLine_row, hline e he]
  · rfl

variable [LinearOrder τ]

def merge (rows fetched : List (Event τ)) : List (Event τ) :=
  ((byId (rows ++ fetched)).map Prod.snd).insertionSort fun a b => a.ts ≤ b.ts

lemma sorted_rows (d : Dict PyStr (Event τ)) :
    ((d.map fun p => (p.2.ts, row clock p.2)).insertionSort fun a b => a.1 ≤ b.1).map Prod.snd =
      ((d.map Prod.snd).insertionSort fun a b => a.ts ≤ b.ts).map (row clock) := by
  have h : (d.map fun p => (p.2.ts, row clock p.2)) = (d.map Prod.snd).map fun e =>
    (e.ts, row clock e) := by
    rw [List.map_map]
    rfl
  have hsort := List.map_insertionSort (fun a b : Event τ => a.ts ≤ b.ts)
    (fun a b : τ × Dict PyStr Json => a.1 ≤ b.1)
    (fun e => (e.ts, row clock e)) (d.map Prod.snd) (by simp)
  rw [h, ← hsort, List.map_map]
  rfl

lemma refresh_matches {file : Option PyStr} {rows : List (Event τ)} (h : Matches clock file rows)
    (hline : ∀ e ∈ rows, unbroken e = true) (fetched : List (Event τ)) :
    refresh clock file (fetched.map (row clock)) =
      if (merge rows fetched).all encodable then
        .ok ⟨fileOf clock (merge rows fetched), fetched.length, (merge rows fetched).length⟩
      else .error .unicodeEncodeError := by
  have hdicts : (rows.map fun e => Json.obj (row clock e)).mapM asDict =
      .ok (rows.map (row clock)) := by
    rw [mapM_eq_ok, List.forall₂_map_left_iff, List.forall₂_map_right_iff, List.forall₂_same]
    exact fun e _ => rfl
  have hexisting : (rows.map (row clock)).foldlM noteRow [] = .ok (image clock (byId rows)) :=
    foldlM_noteRow clock rows []
  have hfetched := foldlM_noteRow clock fetched (byId rows)
  have hall : fetched.foldl note (byId rows) = byId (rows ++ fetched) := (List.foldl_append ..).symm
  have hwrite : writeJsonl ((merge rows fetched).map (row clock)) =
      if (merge rows fetched).all encodable then .ok (fileOf clock (merge rows fetched)) else
        .error .unicodeEncodeError := by
    rw [writeJsonl, List.map_map]
    change (if (encodeUtf8 (fileOf clock (merge rows fetched))).isSome then _ else _) = _
    rw [encodeUtf8_isSome, scalars_fileOf]
    rfl
  rw [refresh, loadJsonl_matches clock h hline]
  simp only [bind, Except.bind, hdicts, hexisting, hfetched, hall, mapM_times, sorted_rows]
  rw [← merge, hwrite]
  split_ifs
  · simp [pure, Except.pure]
  · rfl

lemma refresh_broken {rows : List (Event τ)} {e : Event τ} (he : e ∈ rows)
    (hbreak : unbroken e = false) (fetched : List (Dict PyStr Json)) (r : Refreshed) :
    refresh clock (some (fileOf clock rows)) fetched ≠ .ok r := by
  intro h
  obtain ⟨existing, hload, -⟩ := bind_eq_ok.mp h
  have hmem : Json.obj (row clock e) ∈ rows.map fun e =>
    .obj (row clock e) := List.mem_map_of_mem he
  exact readJsonLines_broken hmem (wf_row clock e) (by rw [oneLine_row, hbreak]) existing hload

lemma mem_merge {rows fetched : List (Event τ)} {e : Event τ} :
    e ∈ merge rows fetched ↔ e.msgId ≠ [] ∧ latest (rows ++ fetched) e.msgId = some e := by
  obtain ⟨hnodup, hget⟩ := byId_spec (rows ++ fetched)
  rw [merge, List.mem_insertionSort, List.mem_map]
  constructor
  · rintro ⟨⟨mid, x⟩, hmem, rfl⟩
    have hx := get?_of_mem hnodup hmem
    rw [hget] at hx
    split_ifs at hx with hmid
    obtain rfl := (mem_of_latest hx).2
    exact ⟨hmid, hx⟩
  · rintro ⟨hid, hlatest⟩
    refine ⟨(e.msgId, e), mem_of_get? ?_, rfl⟩
    rw [hget, if_neg hid, hlatest]

lemma Current.latest_eq {rows history : List (Event τ)} (h : Current rows history)
    {mid : PyStr} (hmid : mid ≠ []) :
    latest rows mid = latest history mid := by
  cases hrows : latest rows mid with
  | some e =>
    obtain ⟨he, rfl⟩ := mem_of_latest hrows
    exact ((h.mem_iff e).mp he).2.symm
  | none =>
    cases hlatest : latest history mid with
    | none => rfl
    | some e =>
      obtain ⟨-, rfl⟩ := mem_of_latest hlatest
      have hempty := List.getLast?_eq_none_iff.mp hrows
      exact absurd ((h.mem_iff e).mpr ⟨hmid, hlatest⟩) fun he => by
        simpa using List.filter_eq_nil_iff.mp hempty e he

lemma merge_distinct (rows fetched : List (Event τ)) :
    ((merge rows fetched).map Event.msgId).Nodup := by
  obtain ⟨hnodup, hget⟩ := byId_spec (rows ++ fetched)
  have hkeys : ((byId (rows ++ fetched)).map Prod.snd).map Event.msgId =
      keys (byId (rows ++ fetched)) := by
    rw [List.map_map]
    refine List.map_congr_left fun p hp => ?_
    have hp' := get?_of_mem hnodup hp
    rw [hget] at hp'
    split_ifs at hp' with hmid
    exact (mem_of_latest hp').2
  have hperm := (List.perm_insertionSort (fun a b : Event τ => a.ts ≤ b.ts)
    ((byId (rows ++ fetched)).map Prod.snd)).map Event.msgId
  exact hperm.nodup_iff.mpr (hkeys ▸ hnodup)

lemma Current.merge {rows history : List (Event τ)} (h : Current rows history)
    (fetched : List (Event τ)) :
    Current (RefreshEvents.merge rows fetched) (history ++ fetched) where
  sorted := List.pairwise_insertionSort _ _
  distinct := merge_distinct rows fetched
  mem_iff e := by
    rw [mem_merge, latest_append, latest_append]
    refine and_congr_right fun hid => ?_
    rw [h.latest_eq hid]

lemma Current.mem_merge {rows history : List (Event τ)} (h : Current rows history)
    {fetched : List (Event τ)} {e : Event τ}
    (he : e ∈ RefreshEvents.merge rows fetched) : Lasts fetched e ∨ e ∈ rows := by
  obtain ⟨hid, hlatest⟩ := RefreshEvents.mem_merge.mp he
  rw [latest_append, h.latest_eq hid, Option.or_eq_some_iff] at hlatest
  rcases hlatest with hlast | ⟨-, hold⟩
  · exact .inl ⟨hid, hlast⟩
  · exact .inr ((h.mem_iff e).mpr ⟨hid, hold⟩)

lemma mem_merge_of_lasts {rows fetched : List (Event τ)} {e : Event τ} (h : Lasts fetched e) :
    e ∈ merge rows fetched := by
  rw [mem_merge, latest_append, h.2]
  exact ⟨h.1, rfl⟩

lemma keeps_iff {file : Option PyStr} {rows history : List (Event τ)}
    (hfile : Matches clock file rows)
    (hcur : Current rows history) (hgood : ∀ e ∈ rows, encodable e = true ∧ unbroken e = true)
    (calls : List (List (Event τ))) :
    Keeps clock file history calls ↔ Readable calls := by
  induction calls generalizing file rows history with
  | nil => exact Iff.rfl
  | cons fetched calls ih =>
    have hrefresh := refresh_matches clock hfile (fun e he => (hgood e he).2) fetched
    have hnext := hcur.merge fetched
    rw [Keeps, Readable, hrefresh]
    constructor
    · rintro ⟨r, hr, -, hkeeps⟩
      split_ifs at hr with hall
      obtain rfl := Except.ok.inj hr
      have hencodable := List.all_eq_true.mp hall
      cases calls with
      | nil =>
        exact ⟨fun e he => ⟨hencodable e (mem_merge_of_lasts he), fun h => absurd rfl h⟩, trivial⟩
      | cons next calls =>
        have hunbroken : ∀ e ∈ merge rows fetched, unbroken e = true := by
          intro e he
          by_contra hbreak
          obtain ⟨r, hr, -⟩ := hkeeps
          exact refresh_broken clock he (by simpa using hbreak) _ r hr
        refine ⟨fun e he => ?_,
          (ih (.inl rfl) hnext fun e he => ⟨hencodable e he, hunbroken e he⟩).mp hkeeps⟩
        have hmem : e ∈ merge rows fetched := mem_merge_of_lasts he
        exact ⟨hencodable e hmem, fun _ => hunbroken e hmem⟩
    · rintro ⟨hlasts, hreadable⟩
      have hencodable : ∀ e ∈ merge rows fetched, encodable e = true := fun e he =>
        (hcur.mem_merge he).elim (fun h => (hlasts e h).1) fun h => (hgood e h).1
      rw [if_pos (List.all_eq_true.mpr hencodable)]
      refine ⟨_, rfl, ⟨_, hnext, rfl⟩, ?_⟩
      cases calls with
      | nil => trivial
      | cons next calls =>
        have hunbroken : ∀ e ∈ merge rows fetched, unbroken e = true := fun e he =>
          (hcur.mem_merge he).elim (fun h => (hlasts e h).2 (by simp)) fun h => (hgood e h).2
        exact (ih (.inl rfl) hnext fun e he => ⟨hencodable e he, hunbroken e he⟩).mpr hreadable

/-- A sequence of calls keeps the cache exactly if what each of them leaves can be written and read.
-/
theorem refresh_keeps_cache_iff (clock : Clock τ) (calls : List (List (Event τ))) :
    Keeps clock none [] calls ↔ Readable calls := by
  have hempty : Current ([] : List (Event τ)) [] :=
    ⟨List.Pairwise.nil, List.nodup_nil, by simp [latest]⟩
  exact keeps_iff clock (.inr ⟨rfl, rfl⟩) hempty (by simp) calls

/-- Two times. -/
def twoTimes : Clock Bool where
  repr t := if t then py "1.5" else py "0.0"
  float v := if v = .float (py "1.5") then .ok true else if v = .int 0 then
    .ok false else .error .typeError
  repr_lit := by decide
  float_repr := by decide +kernel

def separated :
    Event Bool := ⟨true, py "user", py "u1", py "u1", none, py "m1", [], [cp 'a', 0x2028, cp 'b']⟩

/-- After a text with a line separator was fetched the next call fails. -/
theorem separator_stops_refresh :
    ((refresh twoTimes none [row twoTimes separated]).bind fun r =>
      refresh twoTimes (some r.text) []) =
      .error .jsonDecodeError := by
  decide +kernel

end AgentTrajectory.RefreshEvents
