import AgentTrajectory.PyJsonDelimit
import AgentTrajectory.PyLines

/-! The data lines of an event stream, one JSON text a line, and what `str.splitlines` makes
of them: a text without line boundaries is one line again, the first part of any other is no
JSON, and the others begin within a string of it. -/
namespace AgentTrajectory.SseLines
open PyText PyDict PyJson

def sseLine (t : PyStr) : PyStr := py "data: " ++ t

def sseText (texts : List PyStr) : PyStr := texts.flatMap fun t => sseLine t ++ [cp '\n']

def LineOf (t : PyStr) (ev : Dict PyStr Json) : Prop :=
  loads t = some (.obj ev) ∧ ∀ c ∈ t, c ≠ cp '\n' ∧ c ≠ cp '\r'

instance (t : PyStr) (ev : Dict PyStr Json) : Decidable (LineOf t ev) :=
  haveI : Decidable (∀ c ∈ t, c ≠ cp '\n' ∧ c ≠ cp '\r') := List.decidableBAll _ t
  inferInstanceAs (Decidable (_ ∧ _))

/-- No line boundary of `splitlines` stands in the text. -/
def Unbroken (t : PyStr) : Prop := ∀ c ∈ t, isLineBreak c = false

instance (t : PyStr) : Decidable (Unbroken t) := List.decidableBAll _ t

def lineParts (t : PyStr) : List PyStr := splitlines (sseLine t ++ [cp '\n'])

lemma splitlines_sseText (texts : List PyStr) :
    splitlines (sseText texts) = texts.flatMap lineParts := splitlines_flatMap sseLine texts

lemma isLineBreak_data : Unbroken (py "data: ") := by decide

lemma unbroken_sseLine {t : PyStr} (h : Unbroken t) : Unbroken (sseLine t) := by
  intro c hc
  rcases List.mem_append.mp hc with hc | hc
  · exact isLineBreak_data c hc
  · exact h c hc

lemma lineParts_unbroken {t : PyStr} (h : Unbroken t) : lineParts t = [sseLine t] :=
  splitlines_line _ [] (unbroken_sseLine h) (by decide) (by decide)

lemma blank_isSpace : ∀ c ∈ py " ", isSpace c = true := List.all_eq_true.mp (by decide)

lemma inner_of_isLineBreak {c : CodePoint} (h : isLineBreak c = true) (hn : c ≠ cp '\n')
    (hr : c ≠ cp '\r') : Inner c := by
  simp only [isLineBreak, Bool.or_eq_true, Bool.and_eq_true, decide_eq_true_eq, beq_iff_eq] at h
  have hn : c.val ≠ 10 := fun h => hn (Fin.ext h)
  have hr : c.val ≠ 13 := fun h => hr (Fin.ext h)
  have hcase : c.val ∈ [11, 12, 28, 29, 30, 0x85, 0x2028, 0x2029] := by
    simp only [List.mem_cons, List.not_mem_nil, or_false]
    omega
  have hall : ([11, 12, 28, 29, 30, 0x85, 0x2028, 0x2029] : List CodePoint).all (Inner ·) = true := by
    decide
  refine of_decide_eq_true (List.all_eq_true.mp hall c ?_)
  simpa [Fin.ext_iff] using hcase

lemma exists_first_break {t : PyStr} (h : ¬ Unbroken t) :
    ∃ p c q, t = p ++ c :: q ∧ Unbroken p ∧ isLineBreak c = true := by
  refine ⟨t.takeWhile fun d => !isLineBreak d, ?_⟩
  cases hd : t.dropWhile fun d => !isLineBreak d with
  | nil =>
    refine absurd (fun c hc => ?_) h
    simpa using List.dropWhile_eq_nil_iff.mp hd c hc
  | cons c q =>
    refine ⟨c, q, by rw [← hd, List.takeWhile_append_dropWhile], fun d hmem => ?_, ?_⟩
    · simpa using List.mem_takeWhile_imp hmem
    · have := List.head?_dropWhile_not (fun d => !isLineBreak d) t
      simpa [hd] using this

lemma lex_of_mem_splitlines {q : PyStr} {st : Lex} (hq : ∀ c ∈ q, c ≠ cp '\n' ∧ c ≠ cp '\r')
    (h : lex .str q = some st) : ∀ line ∈ splitlines (q ++ [cp '\n']), ∃ st', lex .str line = some st' := by
  induction hlen : q.length using Nat.strong_induction_on generalizing q with
  | _ n ih =>
    subst hlen
    by_cases hbreak : Unbroken q
    · rw [splitlines_line q [] hbreak (by decide) (by decide)]
      exact List.forall_mem_singleton.mpr ⟨st, h⟩
    · obtain ⟨p, c, q, rfl, hp, hc⟩ := exists_first_break hbreak
      obtain ⟨hn, hr⟩ := hq c (by simp)
      obtain ⟨hstr, hrest⟩ := lex_at_inner (inner_of_isLineBreak hc hn hr) h
      rw [List.append_assoc, List.cons_append, splitlines_line p _ hp hc hr]
      exact List.forall_mem_cons.mpr ⟨⟨_, hstr⟩,
        ih q.length (by simp; omega) (fun d hd => hq d (by simp [hd])) hrest rfl⟩

lemma lineParts_broken {t : PyStr} {ev : Dict PyStr Json} (h : LineOf t ev) (hbreak : ¬ Unbroken t) :
    ∃ p rest, lineParts t = sseLine p :: rest ∧ strip (py " " ++ p) ≠ [] ∧
      loads (strip (py " " ++ p)) = none ∧ ∀ line ∈ rest, ∃ st, lex .str line = some st := by
  obtain ⟨p, c, q, rfl, hp, hc⟩ := exists_first_break hbreak
  obtain ⟨hn, hr⟩ := h.2 c (by simp)
  obtain ⟨xs, htok, -⟩ := tokens_loads h.1
  obtain ⟨hstr, hrest⟩ := lex_at_inner (inner_of_isLineBreak hc hn hr) htok.lex_out
  have htext : sseLine (p ++ c :: q) ++ [cp '\n'] = sseLine p ++ c :: (q ++ [cp '\n']) := by
    simp [sseLine]
  obtain ⟨hne, hnone⟩ := @loads_open (py " " ++ p) hstr
  refine ⟨p, splitlines (q ++ [cp '\n']), ?_, hne, hnone,
    lex_of_mem_splitlines (fun d hd => h.2 d (by simp [hd])) hrest⟩
  rw [lineParts, htext]
  exact splitlines_line _ _ (unbroken_sseLine hp) hc hr

lemma strip_data (s : PyStr) : strip (py "data:" ++ s) = py "data:" ++ rstrip s := by
  have hl : lstrip (py "data:" ++ s) = py "data:" ++ s := rfl
  rw [strip, hl, rstrip_append (by decide)]

end AgentTrajectory.SseLines
