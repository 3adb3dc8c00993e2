import AgentTrajectory.PyJsonLines
import AgentTrajectory.PyJsonUnicode
import AgentTrajectory.TaskStitch

/-! `export_tasks.py`: the frozen tasks of a group as one pair of files each, named by the number
and the title of the task, beside an index. The directory is a dictionary from file names to texts.
-/
namespace AgentTrajectory.ExportTasks
open PyText PyDict PyJson TaskStitch

variable {dir : Dir}

structure Event where
  msgId : PyStr
  role : PyStr
  who : PyStr
  name : PyStr
  ts : Option ℤ
  text : PyStr

structure Subreq where
  id : Json
  title : PyStr
  type : Json
  status : Json
  dominant : PyStr
  memberMsgIds : List PyStr

structure Task where
  title : PyStr
  goal : PyStr
  renderMd : PyStr
  confirmationStatus : Option PyStr
  delivery : Option PyStr
  terminal : Json
  lastTs : Json
  events : List Event
  subreqs : List Subreq

structure State where
  frozenTasks : List Task

/-- What the exporter takes from outside: the character classes, the anonymiser, the clock and how a
time stands in JSON. -/
structure Display where
  env : Env
  anonymize : PyStr → PyStr
  clock : ℤ → PyStr
  number : ℤ → Json

def safeGroup (groupId : PyStr) : PyStr :=
  groupId.map fun c =>
    if (48 ≤ c.val && c.val ≤ 57) || (65 ≤ c.val && c.val ≤ 90) || (97 ≤ c.val && c.val ≤
      122) || (py "_.-").elem c then c
    else cp '_'

variable (d : Display)

/-- `ts._strip_feishu(s).strip()`. -/
def plainText (s : PyStr) : PyStr := strip (stripFeishu d.env s)

def slugTitle (title : PyStr) : PyStr :=
  let t := (dropSpaces (plainText d title)).filter fun c => !(py "/\\:*?\"<>|").elem c
  let t := ((t.dropWhile (· == cp '.')).rdropWhile (· == cp '.')).take 30
  if t = [] then py "untitled" else t

def stem (k : ℕ) (slug : PyStr) : PyStr := natDigits k ++ py "_" ++ slug

def indexName (groupId : PyStr) : PyStr := safeGroup groupId ++ py "_index.jsonl"

/-- `x or default`. -/
def orText (x default : PyStr) : PyStr := if x = [] then default else x

def author (e : Event) : PyStr := d.anonymize (orText e.name e.who)

def fmtTs (ts : Option ℤ) : PyStr := if ts.getD 0 = 0 then py "—" else d.clock (ts.getD 0)

def anonEvent (e : Event) : Json :=
  .obj [(py "msg_id", .str e.msgId), (py "role", .str e.role), (py "who", .str (author d e)),
    (py "ts", (e.ts.map d.number).getD .null), (py "text", .str (d.anonymize e.text))]

def eventLine (i : ℕ) (e : Event) : PyStr :=
  let role := if e.role = py "user" then py "用户" else py "bot"
  let txt := (d.anonymize (plainText d e.text)).map fun c => if c = cp '\n' then cp ' ' else c
  py "#" ++ natDigits i ++ py " [" ++ fmtTs d e.ts ++ py "] " ++ role ++ py "(" ++
    author d e ++ py "): " ++ txt

def eventsMd (events : List Event) : PyStr :=
  join (py "\n\n") (((events.insertionSort fun a b => a.ts.getD 0 ≤ b.ts.getD 0).zipIdx 1).map
    fun p => eventLine d p.2 p.1)

def fallbackMd (k : ℕ) (t : Task) : PyStr :=
  py "## 任务 " ++ natDigits k ++ py "　" ++ plainText d t.title ++ py "\n\n- 目标：" ++
    orText (plainText d t.goal) (py "—") ++
    py " | 状态：" ++ t.confirmationStatus.getD (py "—") ++ py " | 交付：" ++
      orText (t.delivery.getD []) (py "—") ++
    py "\n\n### 原文消息（render_md 为空，events 兜底）\n\n" ++ eventsMd d t.events

def taskMd (k : ℕ) (t : Task) : PyStr :=
  let md := strip t.renderMd
  rstrip (if md = [] then fallbackMd d k t else md) ++ py "\n"

def subreqRows (t : Task) : List Json :=
  let byMsg := ofPairs ((t.events.filter fun e => e.msgId ≠ []).map fun e => (e.msgId, e))
  t.subreqs.map fun sr =>
    .obj [(py "task_title", .str (plainText d t.title)), (py "subreq_id", sr.id),
      (py "subreq_title", .str (plainText d sr.title)),
      (py "subreq_type", sr.type), (py "status", sr.status),
        (py "dominant", .str (d.anonymize sr.dominant)),
      (py "member_msg_ids", .arr (sr.memberMsgIds.map .str)),
      (py "events", .arr ((sr.memberMsgIds.filterMap (get? byMsg)).map (anonEvent d)))]

def indexRow (k : ℕ) (t : Task) : Json :=
  .obj [(py "task_idx", .int k), (py "task_title", .str (plainText d t.title)),
    (py "confirmation_status", .str (t.confirmationStatus.getD [])), (py "terminal", t.terminal),
    (py "delivery", (t.delivery.map Json.str).getD .null), (py "n_events", .int t.events.length),
    (py "n_subreqs", .int t.subreqs.length), (py "last_ts", t.lastTs),
    (py "md", .str (stem k (slugTitle d t.title) ++ py ".md")),
      (py "jsonl", .str (stem k (slugTitle d t.title) ++ py ".jsonl"))]

abbrev Dir := Dict PyStr PyStr

/-- A file as it is written: its name and the texts that go to `write` one after another. -/
structure Output where
  name : PyStr
  writes : List PyStr

def Output.text (f : Output) : PyStr := f.writes.flatten

def encodesName (name : PyStr) :
    Bool := name.all fun c => !isSurrogate c || (0xDC80 ≤ c.val && c.val ≤ 0xDCFF)

def openFile (name : PyStr) : Except PyError Unit :=
  if name.any (·.val == 0) then .error .valueError else if encodesName name then .ok () else
    .error .unicodeEncodeError

def encodes (text : PyStr) : Bool := (encodeUtf8 text).isSome

/-- `with path.open("w", encoding="utf-8") as f`: the file is emptied when it is opened, and what
was written before a text that cannot be encoded stays. -/
def writeFile (dir : Dir) (f : Output) : Dir × Except PyError Unit :=
  match openFile f.name with
  | .error e => (dir, .error e)
  | .ok () =>
    if f.writes.all encodes then (set dir f.name f.text, .ok ())
    else (set dir f.name (f.writes.takeWhile encodes).flatten, .error .unicodeEncodeError)

def writeFiles : Dir → List Output → Dir × Except PyError Unit
  | dir, [] => (dir, .ok ())
  | dir, f :: fs =>
    match writeFile dir f with
    | (dir', .ok ()) => writeFiles dir' fs
    | (dir', .error e) => (dir', .error e)

def rowWrites (rows : List Json) : List PyStr := rows.map fun row => row.dumps ++ py "\n"

def taskFiles (p : Task × ℕ) : List Output :=
  let name := stem p.2 (slugTitle d p.1.title)
  [⟨name ++ py ".md", [taskMd d p.2 p.1]⟩, ⟨name ++ py ".jsonl", rowWrites (subreqRows d p.1)⟩]

def files (s : State) : List Output := (s.frozenTasks.zipIdx 1).flatMap (taskFiles d)

def indexFile (groupId : PyStr) (s : State) : Output :=
  ⟨indexName groupId, rowWrites ((s.frozenTasks.zipIdx 1).map fun p => indexRow d p.2 p.1)⟩

/-- `export_group_from_state`: the directory after the call, also after one that raises. -/
def exportGroupFromState (groupId : PyStr) (dir : Dir) (s : State) : Dir × Except PyError Unit :=
  writeFiles dir (files d s ++ [indexFile d groupId s])

def Mirrors (groupId : PyStr) (dir : Dir) (s : State) : Prop :=
  ∀ name text, (get? dir name = some text ∧ name ≠ indexName groupId) ↔ ∃ f ∈ files d s,
    f.name = name ∧ f.text = text

/-- Every call leaves the files of its state. -/
def Keeps (groupId : PyStr) : Dir → List State → Prop
  | _, [] => True
  | dir, s :: states =>
    Mirrors d groupId (exportGroupFromState d groupId dir s).1 s ∧
      Keeps groupId (exportGroupFromState d groupId dir s).1 states

def slugs (s : State) : List PyStr := s.frozenTasks.map fun t => slugTitle d t.title

def openable (name : PyStr) : Bool := !name.any (·.val == 0) && encodesName name

structure Exportable (groupId : PyStr) (k : ℕ) (t : Task) : Prop where
  name : openable (slugTitle d t.title) = true
  md : scalars (taskMd d k t) = true
  rows : ∀ row ∈ subreqRows d t, row.unicode = true
  apart : stem k (slugTitle d t.title) ≠ safeGroup groupId ++ py "_index"

/-- From call to call tasks are only added at the end, and no number gets another slug. -/
def Grows (groupId : PyStr) : Option State → List State → Prop
  | _, [] => True
  | before, s :: states =>
    (∀ i t, s.frozenTasks[i]? = some t → Exportable d groupId (i + 1) t) ∧
      (∀ p ∈ before, slugs d p <+: slugs d s) ∧
      Grows groupId (some s) states

lemma stem_injective {k l : ℕ} {x y : PyStr} (h : stem k x = stem l y) : k = l ∧ x = y := by
  have hsplit (n : ℕ) (z : PyStr) : (stem n z).takeWhile isDigit = natDigits n ∧
      (stem n z).dropWhile isDigit = py "_" ++ z := by
    rw [stem, List.append_assoc]
    refine takeWhile_all (natDigits_isDigit n) fun c hc => ?_
    obtain rfl : cp '_' = c := by simpa [py] using hc
    decide
  have hdigits : natDigits k = natDigits l := by rw [← (hsplit k x).1, h, (hsplit l y).1]
  have hrest : py "_" ++ x = py "_" ++ y := by rw [← (hsplit k x).2, h, (hsplit l y).2]
  refine ⟨?_, List.append_cancel_left hrest⟩
  rw [← digitsValue_natDigits k, hdigits, digitsValue_natDigits]

lemma md_ne_jsonl (a b : PyStr) : a ++ py ".md" ≠ b ++ py ".jsonl" := by
  intro h
  have hlast := congrArg List.getLast? h
  rw [List.getLast?_append, List.getLast?_append, show (py ".md").getLast? =
    some (cp 'd') by decide,
    show (py ".jsonl").getLast? = some (cp 'l') by decide, Option.some_or, Option.some_or] at hlast
  exact absurd hlast (by decide)

variable {d} {s p : State} {groupId : PyStr}

lemma mem_files {f : Output} :
    f ∈ files d s ↔ ∃ i t, s.frozenTasks[i]? = some t ∧ f ∈ taskFiles d (t, i + 1) := by
  rw [files, List.mem_flatMap]
  constructor
  · rintro ⟨⟨t, k⟩, hmem, hf⟩
    obtain ⟨hk, ht⟩ := List.mk_mem_zipIdx_iff_le_and_getElem?_sub.mp hmem
    exact ⟨k - 1, t, ht, by rwa [Nat.sub_add_cancel hk]⟩
  · rintro ⟨i, t, ht, hf⟩
    exact ⟨(t, i + 1), List.mk_mem_zipIdx_iff_le_and_getElem?_sub.mpr ⟨by omega, by simpa using ht⟩,
      hf⟩

lemma mem_taskFiles {t : Task} {k : ℕ} {f : Output} :
    f ∈ taskFiles d (t, k) ↔ f = ⟨stem k (slugTitle d t.title) ++ py ".md", [taskMd d k t]⟩ ∨
      f = ⟨stem k (slugTitle d t.title) ++ py ".jsonl", rowWrites (subreqRows d t)⟩ := by
  simp [taskFiles]

lemma slugs_getElem? {i : ℕ} {t : Task} (h : s.frozenTasks[i]? = some t) :
    (slugs d s)[i]? = some (slugTitle d t.title) := by
  rw [slugs, List.getElem?_map, h]
  rfl

lemma name_eq {t u : Task} {k l : ℕ} {f g : Output} (hf : f ∈ taskFiles d (t, k))
    (hg : g ∈ taskFiles d (u, l)) (h : f.name = g.name) :
    k = l ∧ slugTitle d t.title = slugTitle d u.title := by
  rcases mem_taskFiles.mp hf with rfl | rfl
  · rcases mem_taskFiles.mp hg with rfl | rfl
    · exact stem_injective (List.append_cancel_right h)
    · exact absurd h (md_ne_jsonl _ _)
  · rcases mem_taskFiles.mp hg with rfl | rfl
    · exact absurd h.symm (md_ne_jsonl _ _)
    · exact stem_injective (List.append_cancel_right h)

lemma files_unique {f g : Output} (hf : f ∈ files d s) (hg : g ∈ files d s) (h : f.name = g.name) :
    f = g := by
  obtain ⟨i, t, ht, hf⟩ := mem_files.mp hf
  obtain ⟨j, u, hu, hg⟩ := mem_files.mp hg
  obtain rfl : i = j := by
    have hk := (name_eq hf hg h).1
    omega
  obtain rfl := Option.some.inj (ht.symm.trans hu)
  rcases mem_taskFiles.mp hf with rfl | rfl
  · rcases mem_taskFiles.mp hg with rfl | rfl
    · rfl
    · exact absurd h (md_ne_jsonl _ _)
  · rcases mem_taskFiles.mp hg with rfl | rfl
    · exact absurd h.symm (md_ne_jsonl _ _)
    · rfl

lemma names_subset_iff :
    (∀ f ∈ files d p, ∃ g ∈ files d s, g.name = f.name) ↔ slugs d p <+: slugs d s := by
  rw [List.prefix_iff_getElem?]
  constructor
  · intro h i hi
    have hlt : i < p.frozenTasks.length := by simpa [slugs] using hi
    have ht : p.frozenTasks[i]? = some p.frozenTasks[i] := List.getElem?_eq_getElem hlt
    have hmem : ⟨stem (i + 1) (slugTitle d p.frozenTasks[i].title) ++ py ".md",
      [taskMd d (i + 1) p.frozenTasks[i]]⟩ ∈
        taskFiles d (p.frozenTasks[i], i + 1) := mem_taskFiles.mpr (.inl rfl)
    obtain ⟨g, hg, hname⟩ := h _ (mem_files.mpr ⟨i, _, ht, hmem⟩)
    obtain ⟨j, u, hu, hg⟩ := mem_files.mp hg
    obtain ⟨hk, hslug⟩ := name_eq hg hmem hname
    obtain rfl : j = i := by omega
    rw [slugs_getElem? hu, hslug]
    simp [slugs]
  · intro h f hf
    obtain ⟨i, t, ht, hf⟩ := mem_files.mp hf
    have hi : i < (slugs d p).length := by
      rw [slugs, List.length_map]
      exact (List.getElem?_eq_some_iff.mp ht).1
    have hslug : (slugs d s)[i]? = some (slugTitle d t.title) := by
      rw [h i hi, ← List.getElem?_eq_getElem hi, slugs_getElem? ht]
    rw [slugs, List.getElem?_map] at hslug
    obtain ⟨u, hu, hslug⟩ := Option.map_eq_some_iff.mp hslug
    rcases mem_taskFiles.mp hf with rfl | rfl
    · exact ⟨_, mem_files.mpr ⟨i, u, hu, mem_taskFiles.mpr (.inl rfl)⟩, by rw [hslug]⟩
    · exact ⟨_, mem_files.mpr ⟨i, u, hu, mem_taskFiles.mpr (.inr rfl)⟩, by rw [hslug]⟩

def Output.writable (f : Output) : Bool := openable f.name && f.writes.all encodes

lemma openFile_eq (name : PyStr) : openFile name = .ok () ↔ openable name = true := by
  rw [openFile, openable]
  by_cases h0 : name.any (·.val == 0) = true
  · simp [h0]
  · by_cases hn : encodesName name = true <;> simp [h0, hn]

lemma openable_append (a b : PyStr) : openable (a ++ b) = (openable a && openable b) := by
  rw [openable, openable, openable, encodesName, encodesName, encodesName, List.any_append,
    List.all_append, Bool.not_or]
  ac_rfl

lemma openable_natDigits (n : ℕ) : openable (natDigits n) = true := by
  have hdigit {c : CodePoint} (h : isDigit c = true) : c.val ≠ 0 ∧ c.val < 0xD800 := by
    rw [isDigit] at h
    simp only [Bool.and_eq_true, decide_eq_true_eq] at h
    omega
  rw [openable, encodesName, Bool.and_eq_true, Bool.not_eq_true',
    List.any_eq_false, List.all_eq_true]
  refine ⟨fun c hc => ?_, fun c hc => ?_⟩
  · simpa using (hdigit (natDigits_isDigit n c hc)).1
  · have hlt := (hdigit (natDigits_isDigit n c hc)).2
    simp [isSurrogate]
    omega

lemma openable_stem (k : ℕ) (slug ext : PyStr) (hext : openable ext = true) :
    openable (stem k slug ++ ext) = openable slug := by
  rw [stem, openable_append, openable_append, openable_append, openable_natDigits, hext,
    show openable (py "_") = true by decide, Bool.true_and, Bool.true_and, Bool.and_true]

lemma encodes_row (row : Json) : encodes (row.dumps ++ py "\n") = row.unicode := by
  rw [encodes, encodeUtf8_isSome, scalars_append, scalars_dumps,
    show scalars (py "\n") = true by decide, Bool.and_true]

lemma exportable_iff : (∀ f ∈ files d s, f.writable = true ∧ f.name ≠ indexName groupId) ↔
    ∀ i t, s.frozenTasks[i]? = some t → Exportable d groupId (i + 1) t := by
  have hmd (k : ℕ) (t : Task) : Output.writable ⟨stem k (slugTitle d t.title) ++ py ".md",
      [taskMd d k t]⟩ = true ↔
        openable (slugTitle d t.title) = true ∧ scalars (taskMd d k t) = true := by
    simp [Output.writable, openable_stem k _ (py ".md") (by decide), encodes, encodeUtf8_isSome]
  have hrows (k : ℕ) (t : Task) :
      Output.writable ⟨stem k (slugTitle d t.title) ++ py ".jsonl",
        rowWrites (subreqRows d t)⟩ = true ↔
        openable (slugTitle d t.title) = true ∧ ∀ row ∈ subreqRows d t, row.unicode = true := by
    simp [Output.writable, openable_stem k _ (py ".jsonl") (by decide), rowWrites, encodes_row]
  have hindex : indexName groupId = (safeGroup groupId ++ py "_index") ++ py ".jsonl" := by
    rw [indexName, List.append_assoc]
    rfl
  constructor
  · intro h i t ht
    have h1 := h _ (mem_files.mpr ⟨i, t, ht, mem_taskFiles.mpr (.inl rfl)⟩)
    have h2 := h _ (mem_files.mpr ⟨i, t, ht, mem_taskFiles.mpr (.inr rfl)⟩)
    refine ⟨((hmd _ _).mp h1.1).1, ((hmd _ _).mp h1.1).2,
      ((hrows _ _).mp h2.1).2, fun hstem => h2.2 ?_⟩
    rw [hindex, ← hstem]
  · intro h f hf
    obtain ⟨i, t, ht, hf⟩ := mem_files.mp hf
    obtain ⟨hname, htext, hrow, hapart⟩ := h i t ht
    rcases mem_taskFiles.mp hf with rfl | rfl
    · refine ⟨(hmd _ _).mpr ⟨hname, htext⟩, ?_⟩
      rw [hindex]
      exact md_ne_jsonl _ _
    · refine ⟨(hrows _ _).mpr ⟨hname, hrow⟩, fun h => hapart ?_⟩
      rw [hindex] at h
      exact List.append_cancel_right h

def Sound (dir : Dir) :
    Prop := ∀ name text, get? dir name = some text → openable name = true ∧ scalars text = true

lemma Sound.set (h : Sound dir) {name text : PyStr} (hname : openable name = true)
    (htext : scalars text = true) :
    Sound (PyDict.set dir name text) := by
  intro n t hget
  rw [get?_set] at hget
  split_ifs at hget with hn
  · obtain rfl := hn
    obtain rfl := Option.some.inj hget
    exact ⟨hname, htext⟩
  · exact h n t hget

lemma scalars_flatten {writes : List PyStr} (h : ∀ t ∈ writes, encodes t = true) :
    scalars writes.flatten = true := by
  induction writes with
  | nil => rfl
  | cons t writes ih =>
    obtain ⟨ht, hrest⟩ := List.forall_mem_cons.mp h
    rw [encodes, encodeUtf8_isSome] at ht
    rw [List.flatten_cons, scalars_append, ht, ih hrest, Bool.true_and]

lemma writeFile_cases (dir : Dir) (f : Output) :
    (f.writable = true ∧ writeFile dir f = (set dir f.name f.text, .ok ())) ∨
      (f.writable = false ∧ openable f.name = false ∧ ∃ e, writeFile dir f = (dir, .error e)) ∨
      (f.writable = false ∧ openable f.name = true ∧
        ∃ e, writeFile dir f =
          (set dir f.name (f.writes.takeWhile encodes).flatten, .error e)) := by
  rw [writeFile, Output.writable]
  cases hopen : openFile f.name with
  | error e =>
    have hname : openable f.name = false := by
      rw [← Bool.not_eq_true, ← openFile_eq, hopen]
      simp
    exact .inr (.inl ⟨by rw [hname, Bool.false_and], hname, e, rfl⟩)
  | ok u =>
    have hname : openable f.name = true := (openFile_eq _).mp hopen
    by_cases hall : f.writes.all encodes = true
    · exact .inl ⟨by rw [hname, hall, Bool.true_and], by simp only [if_pos hall]⟩
    · refine .inr (.inr ⟨?_, hname, .unicodeEncodeError, by simp only [if_neg hall]⟩)
      rw [hname, Bool.true_and, Bool.not_eq_true _ |>.mp hall]

lemma sound_writeFile (h : Sound dir) (f : Output) : Sound (writeFile dir f).1 := by
  rcases writeFile_cases dir f with ⟨hf, heq⟩ | ⟨-, -, e, heq⟩ | ⟨-, hname, e, heq⟩
  · rw [Output.writable, Bool.and_eq_true, List.all_eq_true] at hf
    rw [heq]
    exact h.set hf.1 (scalars_flatten hf.2)
  · rwa [heq]
  · rw [heq]
    exact h.set hname (scalars_flatten fun t ht => (List.mem_takeWhile_imp ht))

lemma sound_writeFiles (h : Sound dir) (fs : List Output) : Sound (writeFiles dir fs).1 := by
  induction fs generalizing dir with
  | nil => exact h
  | cons f fs ih =>
    have hstep := sound_writeFile h f
    rw [writeFiles]
    split <;> rename_i heq <;> rw [heq] at hstep
    · exact ih hstep
    · exact hstep

lemma writeFiles_append {fs gs : List Output} (h : ∀ f ∈ fs, f.writable = true) :
    writeFiles dir (fs ++ gs) = writeFiles (update dir (fs.map fun f => (f.name, f.text))) gs := by
  induction fs generalizing dir with
  | nil => rfl
  | cons f fs ih =>
    obtain ⟨hf, hrest⟩ := List.forall_mem_cons.mp h
    have hstep : writeFile dir f = (set dir f.name f.text, .ok ()) := by
      rcases writeFile_cases dir f with ⟨-, heq⟩ | ⟨hnot, -⟩ | ⟨hnot, -⟩
      · exact heq
      · rw [hf] at hnot
        contradiction
      · rw [hf] at hnot
        contradiction
    rw [List.cons_append, writeFiles, hstep]
    exact ih hrest

lemma get?_writeFile {f : Output} {name : PyStr} (h : name ≠ f.name) :
    get? (writeFile dir f).1 name = get? dir name := by
  rcases writeFile_cases dir f with ⟨-, heq⟩ | ⟨-, -, e, heq⟩ | ⟨-, -, e, heq⟩ <;> rw [heq]
  · exact get?_set_ne _ _ h.symm
  · exact get?_set_ne _ _ h.symm

lemma writeFiles_singleton (dir : Dir) (f : Output) :
    (writeFiles dir [f]).1 = (writeFile dir f).1 := by
  rw [writeFiles]
  split <;> rename_i heq <;> rw [heq]
  rfl

lemma get?_export (h : ∀ f ∈ files d s, f.writable = true) {name : PyStr}
    (hname : name ≠ indexName groupId) :
    get? (exportGroupFromState d groupId dir s).1 name =
      get? (update dir ((files d s).map fun f => (f.name, f.text))) name := by
  rw [exportGroupFromState, writeFiles_append h, writeFiles_singleton]
  exact get?_writeFile hname

lemma writable_of_text {f : Output} (hname : openable f.name = true)
    (htext : scalars f.text = true) : f.writable = true := by
  rw [Output.writable, hname, Bool.true_and, List.all_eq_true]
  rw [Output.text, scalars, List.all_flatten, List.all_eq_true] at htext
  intro t ht
  rw [encodes, encodeUtf8_isSome]
  exact htext t ht

lemma get?_written {f : Output} (hf : f ∈ files d s) :
    get? (update dir ((files d s).map fun f => (f.name, f.text))) f.name = some f.text := by
  have hkey : f.name ∈ keys ((files d s).map fun f => (f.name, f.text)) := by
    rw [keys, List.map_map]
    exact List.mem_map_of_mem hf
  obtain ⟨text, hget, hmem⟩ := get?_update_of_mem dir hkey
  obtain ⟨g, hg, heq⟩ := List.mem_map.mp hmem
  obtain rfl := files_unique hg hf (congrArg Prod.fst heq)
  rw [hget, show g.text = text from congrArg Prod.snd heq]

/-- A call leaves the files of its state exactly if they can be written beside the index and every
other file that was there is written again. -/
lemma mirrors_iff (hdir : Sound dir) :
    Mirrors d groupId (exportGroupFromState d groupId dir s).1 s ↔
      (∀ f ∈ files d s, f.writable = true ∧ f.name ≠ indexName groupId) ∧
        ∀ name ∈ keys dir, name ≠ indexName groupId → ∃ f ∈ files d s, f.name = name := by
  constructor
  · intro h
    have hexp : ∀ f ∈ files d s, f.writable = true ∧ f.name ≠ indexName groupId := by
      intro f hf
      obtain ⟨hget, hne⟩ := (h f.name f.text).mpr ⟨f, hf, rfl, rfl⟩
      obtain ⟨hname, htext⟩ := sound_writeFiles hdir _ f.name f.text hget
      exact ⟨writable_of_text hname htext, hne⟩
    refine ⟨hexp, fun name hname hne => ?_⟩
    by_contra hnot
    obtain ⟨text, htext⟩ : ∃ text, get? dir name = some text :=
      Option.ne_none_iff_exists'.mp fun hnone => get?_eq_none.mp hnone hname
    have hkept : get? (exportGroupFromState d groupId dir s).1 name = some text := by
      rw [get?_export (fun f hf => (hexp f hf).1) hne, get?_update_of_not_mem ?_, htext]
      rw [keys, List.map_map]
      exact fun hmem => hnot (List.mem_map.mp hmem)
    obtain ⟨f, hf, hfname, -⟩ := (h name text).mp ⟨hkept, hne⟩
    exact hnot ⟨f, hf, hfname⟩
  · rintro ⟨hexp, hold⟩ name text
    constructor
    · rintro ⟨hget, hne⟩
      rw [get?_export (fun f hf => (hexp f hf).1) hne] at hget
      have hfile : ∃ f ∈ files d s, f.name = name := by
        rcases (mem_keys_update _ _ _).mp (mem_keys_of_get? hget) with hname | hname
        · exact hold name hname hne
        · rw [keys, List.map_map] at hname
          exact List.mem_map.mp hname
      obtain ⟨f, hf, rfl⟩ := hfile
      rw [get?_written hf] at hget
      exact ⟨f, hf, rfl, Option.some.inj hget⟩
    · rintro ⟨f, hf, rfl, rfl⟩
      have hne := (hexp f hf).2
      exact ⟨by rw [get?_export (fun f hf => (hexp f hf).1) hne, get?_written hf], hne⟩

structure Left (d : Display) (groupId : PyStr) (dir : Dir) (before : Option State) : Prop where
  sound : Sound dir
  mem_iff : ∀ name, name ≠ indexName groupId →
    (name ∈ keys dir ↔ ∃ p ∈ before, ∃ f ∈ files d p, f.name = name)
  apart : ∀ p ∈ before, ∀ f ∈ files d p, f.name ≠ indexName groupId

lemma Left.rewritten_iff {before : Option State} (h : Left d groupId dir before) (s : State) :
    (∀ name ∈ keys dir, name ≠ indexName groupId → ∃ f ∈ files d s, f.name = name) ↔ ∀ p ∈ before,
    slugs d p <+: slugs d s := by
  constructor
  · intro hold p hp
    refine names_subset_iff.mp fun f hf => ?_
    have hne := h.apart p hp f hf
    exact hold f.name ((h.mem_iff f.name hne).mpr ⟨p, hp, f, hf, rfl⟩) hne
  · intro hgrows name hname hne
    obtain ⟨p, hp, f, hf, rfl⟩ := (h.mem_iff name hne).mp hname
    exact names_subset_iff.mpr (hgrows p hp) f hf

lemma Left.next (hdir : Sound dir)
    (hmirrors : Mirrors d groupId (exportGroupFromState d groupId dir s).1 s) :
    Left d groupId (exportGroupFromState d groupId dir s).1 (some s) where
  sound := sound_writeFiles hdir _
  mem_iff name hne := by
    constructor
    · intro hname
      obtain ⟨text, htext⟩ := Option.ne_none_iff_exists'.mp fun hnone => get?_eq_none.mp hnone hname
      obtain ⟨f, hf, hfname, -⟩ := (hmirrors name text).mp ⟨htext, hne⟩
      exact ⟨s, rfl, f, hf, hfname⟩
    · rintro ⟨p, hp, f, hf, rfl⟩
      obtain rfl := Option.some.inj hp
      exact mem_keys_of_get? ((hmirrors f.name f.text).mpr ⟨f, hf, rfl, rfl⟩).1
  apart p hp f hf := by
    obtain rfl := Option.some.inj hp
    exact ((hmirrors f.name f.text).mpr ⟨f, hf, rfl, rfl⟩).2

lemma keeps_iff {before : Option State} (h : Left d groupId dir before) (states : List State) :
    Keeps d groupId dir states ↔ Grows d groupId before states := by
  induction states generalizing dir before with
  | nil => exact Iff.rfl
  | cons s states ih =>
    rw [Keeps, Grows, ← exportable_iff, ← h.rewritten_iff s, ← and_assoc, ← mirrors_iff h.sound]
    exact and_congr_right fun hmirrors => ih (Left.next h.sound hmirrors)

/-- The export mirrors the frozen tasks over a sequence of calls exactly if every task can be
written and tasks are only added at the end. -/
theorem export_mirrors_iff (d : Display) (groupId : PyStr) (states : List State) :
    Keeps d groupId [] states ↔ Grows d groupId none states :=
  keeps_iff ⟨by simp [Sound, get?], by simp [keys], by simp⟩ states

def plainDisplay : Display := ⟨asciiEnv, fun s => s, fun _ => [], fun n => .int n⟩

def taskOf (title : String) : Task := ⟨py title, [], py "x", none, none, .null, .null, [], []⟩

/-- The first of two tasks is thawed: the second is exported again under the number 1, and what was
written under 1 and 2 before stays. -/
theorem thawed_task_leaves_files : keys (exportGroupFromState plainDisplay (py "oc_1")
      (exportGroupFromState plainDisplay (py "oc_1") []
        ⟨[taskOf "a", taskOf "b"]⟩).1 ⟨[taskOf "b"]⟩).1 =
      [py "1_a.md", py "1_a.jsonl", py "2_b.md", py "2_b.jsonl", py "oc_1_index.jsonl",
        py "1_b.md", py "1_b.jsonl"] := by
  decide +kernel

end AgentTrajectory.ExportTasks
