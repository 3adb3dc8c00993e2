import AgentTrajectory.PyValue
import AgentTrajectory.SseLines

/-! Files of one JSON text a line, written with `ensure_ascii=False` and read through
`str.splitlines`. The three line boundaries that `dumps` does not escape decide whether the file can
be read again. -/
namespace AgentTrajectory.PyJson
open PyText PyDict PyValue Json SseLines

variable {v : Json}

namespace Json

/-! The keys and texts of a value. -/
mutual
def texts : Json → List PyStr
  | .str s => [s]
  | .arr xs => textsItems xs
  | .obj kvs => textsPairs kvs
  | _ => []
def textsItems : List Json → List PyStr
  | [] => []
  | x :: xs => texts x ++ textsItems xs
def textsPairs : List (PyStr × Json) → List PyStr
  | [] => []
  | (k, x) :: kvs => k :: (texts x ++ textsPairs kvs)
end

end Json

def isPrintable (c : CodePoint) : Bool := 32 ≤ c.val && c.val < 127

section Characters
variable {p : CodePoint → Bool} (hp : ∀ c, isPrintable c = true → p c = true)
include hp

lemma all_of_printable {s : PyStr} (h : s.all isPrintable = true) : s.all p = true :=
  List.all_eq_true.mpr fun c hc => hp c (List.all_eq_true.mp h c hc)

lemma all_escapePoint (c : CodePoint) : (escapePoint c).all p = (decide (c.val < 32) || p c) := by
  unfold escapePoint
  split_ifs with h1 h2 h3 h4 h5 h6 h7 h8
  · rw [all_of_printable hp (by decide), h1, hp (cp '"') (by decide), Bool.or_true]
  · rw [all_of_printable hp (by decide), h2, hp (cp '\\') (by decide), Bool.or_true]
  · rw [all_of_printable hp (by decide), decide_eq_true (by omega), Bool.true_or]
  · rw [all_of_printable hp (by decide), decide_eq_true (by omega), Bool.true_or]
  · rw [all_of_printable hp (by decide), decide_eq_true (by omega), Bool.true_or]
  · rw [all_of_printable hp (by decide), decide_eq_true (by omega), Bool.true_or]
  · rw [all_of_printable hp (by decide), decide_eq_true (by omega), Bool.true_or]
  · have hd : ∀ d < 16, isPrintable (hexDigit d) = true := by decide
    rw [List.all_append, all_of_printable hp (by decide), decide_eq_true h8, Bool.true_or, Bool.true_and]
    refine all_of_printable hp ?_
    simp [hd (c.val / 16) (by omega), hd (c.val % 16) (by omega)]
  · simp [h8]

lemma all_dumpsStr (s : PyStr) : (dumpsStr s).all p = s.all fun c => decide (c.val < 32) || p c := by
  have hq : p (cp '"') = true := hp (cp '"') (by decide)
  have hbody : (s.flatMap escapePoint).all p = s.all fun c => decide (c.val < 32) || p c := by
    induction s with
    | nil => rfl
    | cons c s ih => rw [List.flatMap_cons, List.all_append, all_escapePoint hp, ih, List.all_cons]
  rw [dumpsStr, List.all_cons, List.all_append, hbody, hq]
  simp [hq]

lemma all_number {s : PyStr} (h : ∀ c ∈ s, isNumberChar c = true) : s.all p = true := by
  refine all_of_printable hp (List.all_eq_true.mpr fun c hc => ?_)
  have hnum := h c hc
  simp only [isNumberChar, isDigit, Bool.or_eq_true, beq_iff_eq] at hnum
  rcases hnum with ((((hd | rfl) | rfl) | rfl) | rfl) | rfl
  · simp only [Bool.and_eq_true, decide_eq_true_eq] at hd
    simp only [isPrintable, Bool.and_eq_true, decide_eq_true_eq]
    omega
  all_goals decide

lemma all_floatLit {lit : PyStr} (h : floatLit lit = true) : lit.all p = true := by
  simp only [floatLit, Bool.or_eq_true, beq_iff_eq, Bool.and_eq_true, List.all_eq_true] at h
  rcases h with ((rfl | rfl) | rfl) | ⟨hc, -⟩
  · exact all_of_printable hp (by decide)
  · exact all_of_printable hp (by decide)
  · exact all_of_printable hp (by decide)
  · exact all_number hp hc

lemma all_dumpsItems {xs : List Json}
    (h : ∀ x ∈ xs, (dumps x).all p = x.texts.all fun s => s.all fun c => decide (c.val < 32) || p c) :
    (dumpsItems xs).all p = (textsItems xs).all fun s => s.all fun c => decide (c.val < 32) || p c := by
  induction xs with
  | nil => exact all_of_printable hp (by decide)
  | cons x xs ih =>
    have hsep : (py ", ").all p = true := all_of_printable hp (by decide)
    rw [dumpsItems, textsItems, List.all_append, List.all_append, List.all_append, hsep,
      Bool.true_and, h x (by simp), ih fun y hy => h y (by simp [hy])]

lemma all_dumpsPairs {kvs : List (PyStr × Json)}
    (h : ∀ kv ∈ kvs, (dumps kv.2).all p = kv.2.texts.all fun s => s.all fun c => decide (c.val < 32) || p c) :
    (dumpsPairs kvs).all p = (textsPairs kvs).all fun s => s.all fun c => decide (c.val < 32) || p c := by
  induction kvs with
  | nil => exact all_of_printable hp (by decide)
  | cons kv kvs ih =>
    have hsep : (py ", ").all p = true := all_of_printable hp (by decide)
    have hcolon : (py ": ").all p = true := all_of_printable hp (by decide)
    obtain ⟨k, x⟩ := kv
    simp only [dumpsPairs, textsPairs, List.all_append, List.all_cons, hsep, hcolon, Bool.true_and, Bool.and_true,
      all_dumpsStr hp, h (k, x) (by simp), ih fun y hy => h y (by simp [hy]), Bool.and_assoc]

lemma all_dumps (hv : v.wf = true) :
    (dumps v).all p = v.texts.all fun s => s.all fun c => decide (c.val < 32) || p c := by
  induction v using Json.ind with
  | null => exact all_of_printable hp (by decide)
  | bool b => cases b <;> exact all_of_printable hp (by decide)
  | int n => exact all_number hp (dumpsInt_chars n)
  | float lit => exact all_floatLit hp hv
  | str s => rw [dumps, all_dumpsStr hp, texts, List.all_cons, List.all_nil, Bool.and_true]
  | arr xs ih =>
    have hwf := (wfItems_iff xs).mp hv
    cases xs with
    | nil => exact all_of_printable hp (by decide)
    | cons x xs =>
      have hopen : p (cp '[') = true := hp (cp '[') (by decide)
      have hitems := all_dumpsItems hp fun y hy => ih y (List.mem_cons_of_mem x hy)
        (hwf y (List.mem_cons_of_mem x hy))
      rw [dumps, texts, textsItems, List.all_cons, List.all_append, List.all_append, hopen, Bool.true_and,
        ih x (by simp) (hwf x (by simp)), hitems]
  | obj kvs ih =>
    have hwf := (wfPairs_iff kvs).mp (Bool.and_eq_true_iff.mp hv).2
    cases kvs with
    | nil => exact all_of_printable hp (by decide)
    | cons kv kvs =>
      obtain ⟨k, x⟩ := kv
      have hopen : p (cp '{') = true := hp (cp '{') (by decide)
      have hcolon : (py ": ").all p = true := all_of_printable hp (by decide)
      have hpairs := all_dumpsPairs hp fun y hy =>
        ih y (List.mem_cons_of_mem (k, x) hy) (hwf y (List.mem_cons_of_mem (k, x) hy))
      simp only [dumps, texts, textsPairs, List.all_cons, List.all_append, hopen, hcolon,
        Bool.true_and, Bool.and_true,
        all_dumpsStr hp, ih (k, x) (by simp) (hwf (k, x) (by simp)), hpairs, Bool.and_assoc]

end Characters

/-- A line boundary that `dumps` leaves as it is. -/
def isSeparator (c : CodePoint) : Bool := c.val == 0x85 || c.val == 0x2028 || c.val == 0x2029

def seamless (s : PyStr) : Bool := s.all fun c => !isSeparator c

lemma oneLine_dumps (h : v.wf = true) : oneLine (dumps v) = v.texts.all seamless := by
  have hp : ∀ c, isPrintable c = true → (!isLineBreak c) = true := by
    intro c hc
    simp only [isPrintable, Bool.and_eq_true, decide_eq_true_eq] at hc
    simp only [isLineBreak, Bool.not_eq_true', Bool.or_eq_false_iff, Bool.and_eq_false_iff,
      decide_eq_false_iff_not, beq_eq_false_iff_ne]
    omega
  rw [oneLine, all_dumps hp h]
  refine congrArg v.texts.all (funext fun s => congrArg s.all (funext fun c => ?_))
  rw [Bool.eq_iff_iff]
  simp only [isSeparator, isLineBreak, Bool.or_eq_true, Bool.not_eq_true', decide_eq_true_eq, Bool.or_eq_false_iff,
    Bool.and_eq_false_iff, decide_eq_false_iff_not, beq_eq_false_iff_ne]
  omega

lemma dumps_not_control (h : v.wf = true) : ∀ c ∈ dumps v, 32 ≤ c.val := by
  have hall := all_dumps (p := fun c => 32 ≤ c.val) (fun c hc => (Bool.and_eq_true_iff.mp hc).1) h
  have htrue : (v.texts.all fun s => s.all fun c => decide (c.val < 32) || decide (32 ≤ c.val)) = true :=
    List.all_eq_true.mpr fun s _ => List.all_eq_true.mpr fun c _ => by simp; omega
  intro c hc
  simpa using List.all_eq_true.mp (hall.trans htrue) c hc

lemma costItems_le {xs : List Json} (h : ∀ x ∈ xs, cost x ≤ 2 * (dumps x).length + 1) :
    costItems xs ≤ 2 * (dumpsItems xs).length := by
  induction xs with
  | nil => simp [costItems]
  | cons x xs ih =>
    have hx := h x (by simp)
    have hxs := ih fun y hy => h y (by simp [hy])
    simp only [costItems, dumpsItems, List.length_append, show (py ", ").length = 2 by decide]
    omega

lemma costPairs_le {kvs : List (PyStr × Json)} (h : ∀ kv ∈ kvs, cost kv.2 ≤ 2 * (dumps kv.2).length + 1) :
    costPairs kvs ≤ 2 * (dumpsPairs kvs).length := by
  induction kvs with
  | nil => simp [costPairs]
  | cons kv kvs ih =>
    obtain ⟨k, x⟩ := kv
    have hx : cost x ≤ 2 * (dumps x).length + 1 := h (k, x) (by simp)
    have hxs := ih fun y hy => h y (by simp [hy])
    simp only [costPairs, dumpsPairs, List.length_append, show (py ", ").length = 2 by decide]
    omega

lemma cost_le (v : Json) : cost v ≤ 2 * (dumps v).length + 1 := by
  induction v using Json.ind with
  | null => simp [cost]
  | bool b => simp [cost]
  | int n => simp [cost]
  | float lit => simp [cost]
  | str s => simp [cost]
  | arr xs ih =>
    cases xs with
    | nil => simp [cost, costItems]
    | cons x xs =>
      have hx := ih x (by simp)
      have hxs := costItems_le fun y hy => ih y (List.mem_cons_of_mem x hy)
      simp only [cost, costItems, dumps, List.length_cons, List.length_append]
      omega
  | obj kvs ih =>
    cases kvs with
    | nil => simp [cost, costPairs]
    | cons kv kvs =>
      obtain ⟨k, x⟩ := kv
      have hx : cost x ≤ 2 * (dumps x).length + 1 := ih (k, x) (by simp)
      have hxs := costPairs_le fun y hy => ih y (List.mem_cons_of_mem (k, x) hy)
      simp only [cost, costPairs, dumps, List.length_cons, List.length_append]
      omega

theorem loads_dumps_of_wf (h : v.wf = true) : loads (dumps v) = some v :=
  loads_dumps h ((cost_le v).trans (by rw [parseFuel]; omega))

def jsonLines (rows : List Json) : PyStr := rows.flatMap fun v => dumps v ++ [cp '\n']

def loadsLine (line : PyStr) : Except PyError Json :=
  match loads line with
  | some v => .ok v
  | none => .error .jsonDecodeError

/-- `[json.loads(line) for line in text.splitlines() if line.strip()]`. -/
def readJsonLines (text : PyStr) : Except PyError (List Json) :=
  ((splitlines text).filter fun line => strip line ≠ []).mapM loadsLine

lemma splitlines_jsonLines (rows : List Json) :
    splitlines (jsonLines rows) = rows.flatMap fun v => splitlines (dumps v ++ [cp '\n']) :=
    splitlines_flatMap dumps rows

lemma splitlines_dumps (h : oneLine (dumps v) = true) : splitlines (dumps v ++ [cp '\n']) = [dumps v] :=
  splitlines_line _ [] (by simpa [oneLine] using h) (by decide) (by decide)

lemma loadsLine_dumps (h : v.wf = true) : loadsLine (dumps v) = .ok v := by
  rw [loadsLine, loads_dumps_of_wf h]

lemma strip_dumps (h : v.wf = true) : strip (dumps v) ≠ [] :=
  (@loads_strip _ _ (loads_dumps_of_wf h) [] (by simp)).1

theorem readJsonLines_jsonLines {rows : List Json} (hwf : ∀ v ∈ rows, v.wf = true)
    (hline : ∀ v ∈ rows, oneLine (dumps v) = true) : readJsonLines (jsonLines rows) = .ok rows := by
  have hlines : splitlines (jsonLines rows) = rows.map dumps := by
    rw [splitlines_jsonLines, List.flatMap_congr fun v hv => splitlines_dumps (hline v hv)]
    exact List.flatMap_pure_eq_map dumps rows
  have hkept : ((rows.map dumps).filter fun line => strip line ≠ []) = rows.map dumps := by
    refine List.filter_eq_self.mpr fun line hline => ?_
    obtain ⟨v, hv, rfl⟩ := List.mem_map.mp hline
    simpa using strip_dumps (hwf v hv)
  rw [readJsonLines, hlines, hkept, mapM_eq_ok, List.forall₂_map_left_iff, List.forall₂_same]
  exact fun v hv => loadsLine_dumps (hwf v hv)

lemma splitlines_broken {d : Dict PyStr Json} (hwf : (Json.obj d).wf = true)
    (h : oneLine (dumps (.obj d)) = false) :
    ∃ line ∈ splitlines (dumps (.obj d) ++ [cp '\n']), strip line ≠ [] ∧ loads line = none := by
  have hbreak : ¬ Unbroken (dumps (.obj d)) := fun hu => by
    have htrue : oneLine (dumps (.obj d)) = true := by simpa [oneLine, Unbroken] using hu
    rw [htrue] at h
    exact absurd h (by decide)
  obtain ⟨p, c, q, htext, hp, hc⟩ := exists_first_break hbreak
  have hcontrol : 32 ≤ c.val := dumps_not_control hwf c (by simp [htext])
  have hn : c ≠ cp '\n' := by
    rintro rfl
    exact absurd hcontrol (by decide)
  have hr : c ≠ cp '\r' := by
    rintro rfl
    exact absurd hcontrol (by decide)
  have hloads : loads (p ++ c :: q) = some (.obj d) := htext ▸ loads_dumps_of_wf hwf
  obtain ⟨xs, htok, -⟩ := tokens_loads hloads
  obtain ⟨hne, hnone⟩ := loads_open (lex_at_inner (inner_of_isLineBreak hc hn hr) htok.lex_out).1
  refine ⟨p, ?_, hne, ?_⟩
  · rw [htext, List.append_assoc, List.cons_append, splitlines_line p _ hp hc hr]
    exact List.mem_cons_self
  · by_contra hsome
    obtain ⟨v, hv⟩ := Option.ne_none_iff_exists'.mp hsome
    have hstrip := (@loads_strip v p hv [] (by simp)).2
    rw [List.nil_append, hnone] at hstrip
    exact absurd hstrip (by simp)

theorem readJsonLines_broken {rows : List Json} {d : Dict PyStr Json} (hd : .obj d ∈ rows)
    (hwf : (Json.obj d).wf = true)
    (h : oneLine (dumps (.obj d)) = false) (read : List Json) : readJsonLines (jsonLines rows) ≠ .ok read := by
  obtain ⟨line, hline, hne, hnone⟩ := splitlines_broken hwf h
  intro hread
  have hmem : line ∈ (splitlines (jsonLines rows)).filter fun line => strip line ≠ [] := by
    rw [splitlines_jsonLines]
    exact List.mem_filter.mpr ⟨List.mem_flatMap.mpr ⟨_, hd, hline⟩, by simpa using hne⟩
  obtain ⟨v, hv⟩ := isOk_iff.mp (exists_mapM_eq_ok.mp ⟨read, hread⟩ line hmem)
  rw [loadsLine, hnone] at hv
  exact absurd hv (by simp)

end AgentTrajectory.PyJson
