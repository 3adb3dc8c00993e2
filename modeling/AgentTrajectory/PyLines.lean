import AgentTrajectory.PyText

/-! `str.splitlines` and `str.join` on texts that are put together. -/
namespace AgentTrajectory.PyText

lemma join_cons {sep t : PyStr} {ts : List PyStr} (h : ts ≠ []) :
    join sep (t :: ts) = t ++ sep ++ join sep ts := by
  cases ts with
  | nil => exact absurd rfl h
  | cons t' ts => rfl

lemma join_append {sep : PyStr} {xs ys : List PyStr} (hxs : xs ≠ []) (hys : ys ≠ []) :
    join sep (xs ++ ys) = join sep xs ++ sep ++ join sep ys := by
  induction xs with
  | nil => exact absurd rfl hxs
  | cons x xs ih =>
    by_cases hnil : xs = []
    · subst hnil
      exact join_cons hys
    · rw [List.cons_append, join_cons (by simp [hnil]), ih hnil, join_cons hnil]
      simp only [List.append_assoc]

lemma join_flatten {sep : PyStr} {ls : List (List PyStr)} (h : ∀ l ∈ ls, l ≠ []) :
    join sep ls.flatten = join sep (ls.map (join sep)) := by
  induction ls with
  | nil => rfl
  | cons l ls ih =>
    by_cases hnil : ls = []
    · subst hnil
      simp [join]
    · have hrest : ls.flatten ≠ [] := by
        rw [Ne, List.flatten_eq_nil_iff]
        intro hall
        obtain ⟨l', hl'⟩ := List.exists_mem_of_ne_nil ls hnil
        exact h l' (by simp [hl']) (hall l' hl')
      rw [List.flatten_cons, join_append (h l (by simp)) hrest, ih fun l' hl' =>
        h l' (by simp [hl']), List.map_cons,
        join_cons (by simpa using hnil)]

lemma splitlinesFrom_newline (a b : PyStr) (cr : Bool) (cur : PyStr) :
    splitlinesFrom cr cur (a ++ cp '\n' :: b) = splitlinesFrom cr cur (a ++ [cp '\n']) ++ splitlines b := by
  have hcarriage : (cp '\n' == cp '\r') = false := by decide
  have hbreak : isLineBreak (cp '\n') = true := by decide
  induction a generalizing cr cur with
  | nil =>
    rw [List.nil_append, List.nil_append, splitlinesFrom, splitlinesFrom, hcarriage, hbreak]
    cases cr with
    | true => simp [splitlinesFrom, splitlines]
    | false => simp [splitlinesFrom, splitlines]
  | cons c a ih =>
    rw [List.cons_append, List.cons_append, splitlinesFrom, splitlinesFrom]
    split_ifs
    · exact ih _ _
    · rw [ih, List.cons_append]
    · exact ih _ _

lemma splitlines_newline (a b : PyStr) :
    splitlines (a ++ cp '\n' :: b) = splitlines (a ++ [cp '\n']) ++ splitlines b :=
  splitlinesFrom_newline a b false []

lemma splitlines_flatMap {α : Type*} (line : α → PyStr) (xs : List α) :
    splitlines (xs.flatMap fun x => line x ++ [cp '\n']) =
      xs.flatMap fun x => splitlines (line x ++ [cp '\n']) := by
  induction xs with
  | nil => rfl
  | cons x xs ih =>
    rw [List.flatMap_cons, List.append_assoc, List.singleton_append, splitlines_newline, ih]
    rfl

lemma splitlinesFrom_snoc_newline (a : PyStr) {cr : Bool} {cur : PyStr} (hcr : cr = true → cur = []) :
    splitlinesFrom cr cur (a ++ [cp '\n']) = splitlinesFrom cr cur a ∨
      splitlinesFrom cr cur (a ++ [cp '\n']) = splitlinesFrom cr cur a ++ [[]] := by
  have hbreak : isLineBreak (cp '\n') = true := by decide
  induction a generalizing cr cur with
  | nil =>
    rw [List.nil_append, splitlinesFrom, splitlinesFrom, hbreak]
    cases cr with
    | true => simp [splitlinesFrom, hcr rfl]
    | false =>
      by_cases hcur : cur = []
      · simp [splitlinesFrom, hcur]
      · simp [splitlinesFrom, hcur]
  | cons c a ih =>
    rw [List.cons_append, splitlinesFrom, splitlinesFrom]
    split_ifs
    · exact ih (by simp)
    · rcases @ih (c == cp '\r') [] (by simp) with h | h
      · exact .inl (by rw [h])
      · exact .inr (by rw [h, List.cons_append])
    · exact ih (by simp)

lemma splitlines_snoc_newline (a : PyStr) :
    splitlines (a ++ [cp '\n']) = splitlines a ∨ splitlines (a ++ [cp '\n']) = splitlines a ++ [[]] :=
  splitlinesFrom_snoc_newline a (by simp)

lemma splitlinesFrom_modifyHead (p : PyStr) {cur : PyStr} (hcur : cur ≠ []) (b : PyStr) :
    splitlinesFrom false (cur ++ p) b = (splitlinesFrom false cur b).modifyHead (p.reverse ++ ·) := by
  induction b generalizing cur with
  | nil => simp [splitlinesFrom, hcur]
  | cons c b ih =>
    rw [splitlinesFrom, splitlinesFrom]
    simp only [Bool.false_and, Bool.false_eq_true, if_false]
    split_ifs
    · simp
    · rw [← List.cons_append, ih (by simp)]

lemma splitlinesFrom_open {cur : PyStr} (hcur : cur ≠ []) (b : PyStr) :
    ∃ first rest, splitlinesFrom false cur b = (cur.reverse ++ first) :: rest := by
  induction b generalizing cur with
  | nil => exact ⟨[], [], by simp [splitlinesFrom, hcur]⟩
  | cons c b ih =>
    rw [splitlinesFrom]
    simp only [Bool.false_and, Bool.false_eq_true, if_false]
    split_ifs
    · exact ⟨[], _, by rw [List.append_nil]⟩
    · obtain ⟨first, rest, h⟩ := ih (List.cons_ne_nil c cur)
      exact ⟨c :: first, rest, by rw [h]; simp⟩

section Selected
variable {β : Type} {f : PyStr → Option β}

lemma filterMap_splitlines_append (hf : f [] = none) (a b : PyStr) :
    (splitlines (a ++ cp '\n' :: b)).filterMap f = (splitlines a).filterMap f ++ (splitlines b).filterMap f := by
  rw [splitlines_newline, List.filterMap_append]
  rcases splitlines_snoc_newline a with h | h
  · rw [h]
  · rw [h, List.filterMap_append, List.filterMap_cons_none hf, List.filterMap_nil, List.append_nil]

lemma filterMap_splitlines_join (hf : f [] = none) (ls : List PyStr) :
    (splitlines (join (py "\n") ls)).filterMap f = ls.flatMap fun l => (splitlines l).filterMap f := by
  induction ls with
  | nil => rfl
  | cons l ls ih =>
    cases ls with
    | nil => simp [join]
    | cons l' ls =>
      rw [join, List.append_assoc, List.flatMap_cons, ← ih]
      exact filterMap_splitlines_append hf l _

end Selected

def oneLine (s : PyStr) : Bool := s.all fun c => !isLineBreak c

lemma oneLine_append {a b : PyStr} : oneLine (a ++ b) = true ↔ oneLine a = true ∧ oneLine b = true := by
  simp [oneLine]

lemma splitlinesFrom_oneLine {a : PyStr} (ha : oneLine a = true) (b cur : PyStr) :
    splitlinesFrom false cur (a ++ b) = splitlinesFrom false (a.reverse ++ cur) b := by
  induction a generalizing cur with
  | nil => rfl
  | cons c a ih =>
    obtain ⟨hc, ha⟩ := (by simpa [oneLine] using ha : isLineBreak c = false ∧ ∀ x ∈ a, isLineBreak x = false)
    rw [List.cons_append, splitlinesFrom]
    simp only [Bool.false_and, Bool.false_eq_true, if_false, hc]
    rw [ih (by simpa [oneLine] using ha), List.reverse_cons, List.append_assoc]
    rfl

lemma splitlines_oneLine {a : PyStr} (ha : oneLine a = true) : splitlines a = if a = [] then [] else [a] := by
  have h := splitlinesFrom_oneLine ha [] []
  rw [List.append_nil, List.append_nil] at h
  rw [splitlines, h, splitlinesFrom]
  simp

lemma oneLine_of_mem_splitlinesFrom {s : PyStr} {cr : Bool} {cur : PyStr} (hcur : oneLine cur = true) :
    ∀ l ∈ splitlinesFrom cr cur s, oneLine l = true := by
  induction s generalizing cr cur with
  | nil =>
    intro l hl
    rw [splitlinesFrom] at hl
    split_ifs at hl
    · simp at hl
    · obtain rfl := List.mem_singleton.mp hl
      simpa [oneLine] using hcur
  | cons c s ih =>
    intro l hl
    rw [splitlinesFrom] at hl
    split_ifs at hl with hswallow hbreak
    · exact ih rfl l hl
    · rcases List.mem_cons.mp hl with rfl | hl
      · simpa [oneLine] using hcur
      · exact ih rfl l hl
    · refine ih ?_ l hl
      have hc : isLineBreak c = false := by simpa using hbreak
      simpa [oneLine, hc] using hcur

end AgentTrajectory.PyText
