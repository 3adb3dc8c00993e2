import AgentTrajectory.PyRegex
import AgentTrajectory.RelatedLists

/-! What `re.sub` leaves. A replacement that stands between two marks which no match contains
opens no match of another pattern, so a chain of substitutions leaves no match of any. -/
namespace AgentTrajectory.PyRegex
open PyText RelatedLists

def NoMatchFrom (isWord : CodePoint → Bool) (r : Regex) (left s : PyStr) : Prop :=
  ∀ u m w, s = u ++ m ++ w → ¬Accepts isWord r (u.reverse ++ left) m w

def NoMatch (isWord : CodePoint → Bool) (r : Regex) (s : PyStr) : Prop := NoMatchFrom isWord r [] s

/-- The scan replaces `m`, followed by `t`. -/
def Hit (isWord : CodePoint → Bool) (r : Regex) (left m t : PyStr) : Prop :=
  m ≠ [] ∧ (matchAt isWord r left (m ++ t)).head? = some (m.reverse ++ left, t)

/-- How `re.sub` goes through a text: the text, the new one and what was replaced. -/
inductive Replaced (isWord : CodePoint → Bool) (r : Regex) (repl : PyStr → PyStr) :
    PyStr → PyStr → PyStr → List PyStr → Prop
  | nil (left : PyStr) : Replaced isWord r repl left [] [] []
  | keep {left s out : PyStr} {found : List PyStr} {c : CodePoint}
    (hno : matchAt isWord r left (c :: s) = [])
      (h : Replaced isWord r repl (c :: left) s out found) :
        Replaced isWord r repl left (c :: s) (c :: out) found
  | hit {left m t out : PyStr} {found : List PyStr} (hm : Hit isWord r left m t)
      (h : Replaced isWord r repl (m.reverse ++ left) t out found) :
      Replaced isWord r repl left (m ++ t) (repl m ++ out) (m :: found)

variable {isWord : CodePoint → Bool} {r : Regex} {repl : PyStr → PyStr}

lemma accepts_lit {s l m w : PyStr} : Accepts isWord (.lit s) l m w ↔ m = s := by
  induction s generalizing l m with
  | nil => rfl
  | cons c s ih =>
    constructor
    · rintro ⟨m₁, m₂, rfl, ⟨d, rfl, hd⟩, h₂⟩
      rw [ih.mp h₂, beq_iff_eq.mp hd]
      rfl
    · rintro rfl
      exact ⟨[c], s, rfl, ⟨c, rfl, by simp⟩, ih.mpr rfl⟩

lemma matchAt_eq_nil {left s : PyStr} :
    matchAt isWord r left s = [] ↔ ∀ m w, s = m ++ w → ¬Accepts isWord r left m w := by
  rw [List.eq_nil_iff_forall_not_mem]
  constructor
  · rintro h m w rfl hacc
    exact h (m.reverse ++ left, w) (mem_matchAt.mpr ⟨m, rfl, rfl, hacc⟩)
  · rintro h ⟨left', w⟩ hmem
    obtain ⟨m, hs, -, hacc⟩ := mem_matchAt.mp hmem
    exact h m w hs hacc

lemma noMatchFrom_nil {left : PyStr} :
    NoMatchFrom isWord r left [] ↔ ¬Accepts isWord r left [] [] := by
  constructor
  · exact fun h => h [] [] [] rfl
  · intro h u m w hs
    obtain ⟨rfl, rfl, rfl⟩ : u = [] ∧ m = [] ∧ w = [] := by simpa using hs.symm
    exact h

lemma noMatchFrom_cons {left s : PyStr} {c : CodePoint} : NoMatchFrom isWord r left (c :: s) ↔
      (∀ m w, c :: s = m ++ w → ¬Accepts isWord r left m w) ∧
        NoMatchFrom isWord r (c :: left) s := by
  constructor
  · intro h
    refine ⟨fun m w hs => h [] m w hs, fun u m w hs => ?_⟩
    have := h (c :: u) m w (by simp [hs])
    simpa using this
  · rintro ⟨hhere, hrest⟩ u m w hs
    cases u with
    | nil => exact hhere m w hs
    | cons d u =>
      simp only [List.cons_append, List.cons.injEq] at hs
      obtain ⟨rfl, hs⟩ := hs
      have := hrest u m w hs
      simpa using this

lemma noMatchFrom_append {left u s : PyStr} (h : NoMatchFrom isWord r left (u ++ s)) :
    NoMatchFrom isWord r (u.reverse ++ left) s := by
  intro v m w hs
  have := h (u ++ v) m w (by simp [hs])
  simpa using this

lemma searchFrom_eq_none {left s : PyStr} :
    searchFrom isWord r left s = none ↔ NoMatchFrom isWord r left s := by
  induction s generalizing left with
  | nil =>
    rw [searchFrom, Option.map_eq_none_iff, List.head?_eq_none_iff, matchAt_eq_nil, noMatchFrom_nil]
    constructor
    · exact fun h => h [] [] rfl
    · intro h m w hs
      obtain ⟨rfl, rfl⟩ : m = [] ∧ w = [] := by simpa using hs.symm
      exact h
  | cons c s ih =>
    rw [searchFrom, noMatchFrom_cons, ← ih, ← matchAt_eq_nil]
    cases hm : matchAt isWord r left (c :: s) with
    | nil => simp
    | cons q qs => simp

lemma searchFrom_eq_some {left s left' t : PyStr}
    (h : searchFrom isWord r left s = some (left', t)) :
    ∃ u m, s = u ++ m ++ t ∧ left' = u.reverse ++ left ∧ Accepts isWord r left' m t := by
  induction s generalizing left with
  | nil =>
    obtain ⟨q, hq, heq⟩ := Option.map_eq_some_iff.mp h
    obtain ⟨rfl, rfl⟩ := Prod.mk.inj heq
    obtain ⟨m, hm, -, hacc⟩ := mem_matchAt.mp (List.mem_of_head? hq)
    exact ⟨[], m, hm, rfl, hacc⟩
  | cons c s ih =>
    rw [searchFrom] at h
    cases hm : (matchAt isWord r left (c :: s)).head? with
    | some q =>
      rw [hm] at h
      obtain ⟨rfl, rfl⟩ := Prod.mk.inj (Option.some.inj h)
      obtain ⟨m, hs, -, hacc⟩ := mem_matchAt.mp (List.mem_of_head? hm)
      exact ⟨[], m, hs, rfl, hacc⟩
    | none =>
      rw [hm] at h
      obtain ⟨u, m, rfl, rfl, hacc⟩ := ih h
      exact ⟨c :: u, m, rfl, by simp, hacc⟩

lemma accepts_of_searchText {s m : PyStr} (h : searchText isWord r s = some m) :
    ∃ left t, Accepts isWord r left m t := by
  obtain ⟨⟨left, t⟩, hq, heq⟩ := Option.map_eq_some_iff.mp h
  obtain ⟨u, m', rfl, rfl, hacc⟩ := searchFrom_eq_some hq
  have hm : m' = m := by
    rw [← heq, List.append_assoc]
    simp
  exact ⟨_, t, hm ▸ hacc⟩

lemma found_eq_false {s : PyStr} : found isWord r s = false ↔ NoMatch isWord r s := by
  rw [found, Option.isSome_eq_false_iff, Option.isNone_iff_eq_none, searchFrom_eq_none, NoMatch]

instance (s : PyStr) : Decidable (NoMatch isWord r s) := decidable_of_iff _ found_eq_false

lemma subFrom_append (m t left : PyStr) :
    subFrom isWord r repl m.length left (m ++ t) =
      subFrom isWord r repl 0 (m.reverse ++ left) t := by
  induction m generalizing left with
  | nil => rfl
  | cons c m ih =>
    rw [List.length_cons, List.cons_append, subFrom, ih]
    simp

lemma hitsFrom_append (m t left : PyStr) :
    hitsFrom isWord r m.length left (m ++ t) = hitsFrom isWord r 0 (m.reverse ++ left) t := by
  induction m generalizing left with
  | nil => rfl
  | cons c m ih =>
    rw [List.length_cons, List.cons_append, hitsFrom, ih]
    simp

theorem replaced_subFrom (hne : ∀ left w, ¬Accepts isWord r left [] w) (left s : PyStr) :
    Replaced isWord r repl left s (subFrom isWord r repl 0 left s)
    (hitsFrom isWord r 0 left s) := by
  induction hn : s.length using Nat.strong_induction_on generalizing left s with
  | _ n ih =>
    subst hn
    cases s with
    | nil => exact .nil left
    | cons c s =>
      rw [subFrom, hitsFrom]
      cases hm : matchAt isWord r left (c :: s) with
      | nil => exact .keep hm (ih s.length (by simp) (c :: left) s rfl)
      | cons q qs =>
        obtain ⟨left', t⟩ := q
        obtain ⟨m, hs, rfl, hacc⟩ :=
          mem_matchAt.mp (hm ▸ List.mem_cons_self (a := (left', t)) (l := qs))
        have hm0 : m ≠ [] := fun h => hne left t (h ▸ hacc)
        obtain ⟨d, m, rfl⟩ := List.exists_cons_of_ne_nil hm0
        rw [List.cons_append, List.cons.injEq] at hs
        obtain ⟨rfl, rfl⟩ := hs
        have hlen : (m ++ t).length + 1 - t.length = (c :: m).length := by simp; omega
        have htake : (c :: (m ++ t)).take (c :: m).length = c :: m := by simp
        simp only [List.head?_cons, hlen, htake]
        rw [List.length_cons, Nat.add_sub_cancel, subFrom_append, hitsFrom_append]
        have hrest := ih t.length (by simp) (m.reverse ++ c :: left) t rfl
        refine .hit ⟨hm0, ?_⟩ (by simpa using hrest)
        rw [List.cons_append, hm]
        rfl

theorem subFrom_eq_self {left s : PyStr} (h : NoMatchFrom isWord r left s) :
    subFrom isWord r repl 0 left s = s := by
  induction s generalizing left with
  | nil => rfl
  | cons c s ih =>
    obtain ⟨hhere, hrest⟩ := noMatchFrom_cons.mp h
    rw [subFrom, matchAt_eq_nil.mpr hhere, List.head?_nil, ih hrest]

theorem sub_eq_self {s : PyStr} (h : NoMatch isWord r s) :
    sub isWord r repl s = s := subFrom_eq_self h

lemma head?_flatMap {α β : Type} {f : α → List β} {l : List α} {b : β}
    (h : (l.flatMap f).head? = some b) :
    ∃ a ∈ l, (f a).head? = some b := by
  induction l with
  | nil => simp at h
  | cons a l ih =>
    rw [List.flatMap_cons, List.head?_append] at h
    rcases Option.or_eq_some_iff.mp h with ha | ⟨-, hl⟩
    · exact ⟨a, List.mem_cons_self, ha⟩
    · obtain ⟨a', ha', hb⟩ := ih hl
      exact ⟨a', List.mem_cons_of_mem _ ha', hb⟩

def EndsGreedy (isWord : CodePoint → Bool) (r : Regex) (p : CodePoint → Bool) : Prop :=
  ∀ left s q, (matchAt isWord r left s).head? = some q → q.2.head?.any p = false

lemma endsGreedy_seq {p : CodePoint → Bool} {a b : Regex} (h : EndsGreedy isWord b p) :
    EndsGreedy isWord (.seq a b) p := by
  intro left s q hq
  obtain ⟨q', -, hq'⟩ := head?_flatMap hq
  exact h q'.1 q'.2 q hq'

lemma endsGreedy_run (p : CodePoint → Bool) (lo : ℕ) : EndsGreedy isWord (.run p lo none) p := by
  intro left s q hq
  have hne : lo ≤ (s.takeWhile p).length := by
    obtain ⟨k, hk⟩ : ∃ k, k ∈ runLengths lo none (s.takeWhile p).length := by
      by_contra hno
      have hnil : runLengths lo none (s.takeWhile p).length = [] :=
        List.eq_nil_iff_forall_not_mem.mpr fun k hk => hno ⟨k, hk⟩
      simp [matchAt, hnil] at hq
    obtain ⟨hlo, -, hle⟩ := mem_runLengths.mp hk
    omega
  have hhead : (runLengths lo none (s.takeWhile p).length).head? = some (s.takeWhile p).length := by
    rw [runLengths, Option.getD_none, min_self, List.range_succ, List.filter_append]
    simp [hne]
  rw [matchAt, List.head?_map, hhead] at hq
  obtain rfl := Option.some.inj hq
  simp only [drop_length_takeWhile]
  cases hd : s.dropWhile p with
  | nil => rfl
  | cons c t =>
    have := List.head_dropWhile_not p (l := s) (by simp [hd])
    simp only [hd, List.head_cons] at this
    simpa using this

def Regex.classes : Regex → List (CodePoint → Bool)
  | .one p => [p]
  | .run p _ _ => [p]
  | .seq a b => a.classes ++ b.classes
  | .alt a b => a.classes ++ b.classes
  | _ => []

def Regex.behind (isWord : CodePoint → Bool) : Regex → List (CodePoint → Bool)
  | .boundary => [isWord]
  | .notAfter p => [p]
  | .seq a b => a.behind isWord ++ b.behind isWord
  | .alt a b => a.behind isWord ++ b.behind isWord
  | _ => []

def Regex.looksAhead : Regex → Bool
  | .boundary => true
  | .seq a b => a.looksAhead || b.looksAhead
  | .alt a b => a.looksAhead || b.looksAhead
  | _ => false

@[simp] lemma classes_lit (s : PyStr) : (Regex.lit s).classes = s.map fun c d => d == c := by
  induction s with
  | nil => rfl
  | cons c s ih => simp [Regex.lit, Regex.classes, ih]

@[simp] lemma behind_lit (s : PyStr) : (Regex.lit s).behind isWord = [] := by
  induction s with
  | nil => rfl
  | cons c s ih => simp [Regex.lit, Regex.behind, ih]

@[simp] lemma looksAhead_lit (s : PyStr) : (Regex.lit s).looksAhead = false := by
  induction s with
  | nil => rfl
  | cons c s ih => simp [Regex.lit, Regex.looksAhead, ih]

lemma isWord_mem_behind (h : r.looksAhead = true) : isWord ∈ r.behind isWord := by
  induction r with
  | boundary => simp [Regex.behind]
  | seq a b iha ihb =>
    rcases Bool.or_eq_true_iff.mp h with h | h
    · exact List.mem_append_left _ (iha h)
    · exact List.mem_append_right _ (ihb h)
  | alt a b iha ihb =>
    rcases Bool.or_eq_true_iff.mp h with h | h
    · exact List.mem_append_left _ (iha h)
    · exact List.mem_append_right _ (ihb h)
  | _ => simp [Regex.looksAhead] at h

section Sim
variable {sim : CodePoint → CodePoint → Prop}

def Respects (sim : CodePoint → CodePoint → Prop) (p : CodePoint → Bool) :
    Prop := ∀ a b, sim a b → p a = p b

lemma any_head?_append {m m' l l' : PyStr} (hm : List.Forall₂ sim m m') {p : CodePoint → Bool}
    (hp : Respects sim p) (hl : l.head?.any p = l'.head?.any p) : (m ++ l).head?.any p =
      (m' ++ l').head?.any p := by
  cases hm with
  | nil => exact hl
  | cons hab _ => simpa using hp _ _ hab

theorem accepts_of_similar {q : Regex} (hc : ∀ p ∈ q.classes, Respects sim p)
    (hb : ∀ p ∈ q.behind isWord, Respects sim p) {l l' m m' w w' : PyStr}
    (hm : List.Forall₂ sim m m') (hl : ∀ p ∈ q.behind isWord, l.head?.any p = l'.head?.any p)
    (hw : q.looksAhead = true → w.head?.any isWord = w'.head?.any isWord)
    (h : Accepts isWord q l' m' w') : Accepts isWord q l m w := by
  induction q generalizing l l' m m' w w' with
  | empty =>
    subst h
    exact List.forall₂_nil_right_iff.mp hm
  | one p =>
    obtain ⟨c, rfl, hp⟩ := h
    obtain ⟨a, hac, rfl⟩ : ∃ a, sim a c ∧ m = [a] := by
      obtain ⟨a, u, hac, hu, rfl⟩ := List.forall₂_cons_right_iff.mp hm
      exact ⟨a, hac, by rw [List.forall₂_nil_right_iff.mp hu]⟩
    exact ⟨a, rfl, (hc p (by simp [Regex.classes]) a c hac).trans hp⟩
  | run p lo hi =>
    obtain ⟨hlo, hhi, hall⟩ := h
    rw [← hm.length_eq] at hlo hhi
    refine ⟨hlo, hhi, fun a ha => ?_⟩
    obtain ⟨c, hcm, hac⟩ := forall₂_mem_left hm ha
    exact (hc p (by simp [Regex.classes]) a c hac).trans (hall c hcm)
  | seq a b iha ihb =>
    obtain ⟨m₁', m₂', rfl, h₁, h₂⟩ := h
    have hm₁ := List.forall₂_take_append _ _ _ hm
    have hm₂ := List.forall₂_drop_append _ _ _ hm
    refine ⟨_, _, (List.take_append_drop m₁'.length m).symm, ?_, ?_⟩
    · refine iha (fun p hp => hc p (List.mem_append_left _ hp))
        (fun p hp => hb p (List.mem_append_left _ hp)) hm₁
        (fun p hp => hl p (List.mem_append_left _ hp)) (fun ha => ?_) h₁
      exact any_head?_append hm₂ (hb isWord (List.mem_append_left _ (isWord_mem_behind ha)))
        (hw (by simp [Regex.looksAhead, ha]))
    · refine ihb (fun p hp => hc p (List.mem_append_right _ hp))
        (fun p hp => hb p (List.mem_append_right _ hp)) hm₂
        (fun p hp => ?_) (fun hbd => hw (by simp [Regex.looksAhead, hbd])) h₂
      exact any_head?_append (List.rel_reverse hm₁) (hb p (List.mem_append_right _ hp))
        (hl p (List.mem_append_right _ hp))
  | alt a b iha ihb =>
    rcases h with h | h
    · exact .inl (iha (fun p hp => hc p (List.mem_append_left _ hp)) (fun p hp =>
        hb p (List.mem_append_left _ hp)) hm
        (fun p hp => hl p (List.mem_append_left _ hp))
          (fun ha => hw (by simp [Regex.looksAhead, ha])) h)
    · exact .inr (ihb (fun p hp => hc p (List.mem_append_right _ hp)) (fun p hp =>
        hb p (List.mem_append_right _ hp)) hm
        (fun p hp => hl p (List.mem_append_right _ hp))
          (fun hbd => hw (by simp [Regex.looksAhead, hbd])) h)
  | boundary =>
    obtain ⟨rfl, hbd⟩ := h
    refine ⟨List.forall₂_nil_right_iff.mp hm, ?_⟩
    rwa [atBoundary, hl isWord (by simp [Regex.behind]), hw rfl]
  | notAfter p =>
    obtain ⟨rfl, hno⟩ := h
    exact ⟨List.forall₂_nil_right_iff.mp hm, (hl p (by simp [Regex.behind])).trans hno⟩

/-- The new text repeats the old one, up to similar characters, as far as the next mark; `stop`
says where it may stand. -/
inductive Echo (sim : CodePoint → CodePoint → Prop) (mark : CodePoint)
    (stop : PyStr → PyStr → Prop) :
    PyStr → PyStr → PyStr → Prop
  | nil (left : PyStr) : Echo sim mark stop left [] []
  | mark {left s : PyStr} (t : PyStr) (h : stop left s) : Echo sim mark stop left s (mark :: t)
  | cons {left s t : PyStr} {a b : CodePoint} (hab : sim a b)
    (h : Echo sim mark stop (a :: left) s t) :
      Echo sim mark stop left (a :: s) (b :: t)

lemma Echo.append {mark : CodePoint} {stop : PyStr → PyStr → Prop} {left m m' s t : PyStr}
    (hm : List.Forall₂ sim m m') (h : Echo sim mark stop (m.reverse ++ left) s t) :
    Echo sim mark stop left (m ++ s) (m' ++ t) := by
  induction hm generalizing left with
  | nil => exact h
  | cons hab _ ih => exact .cons hab (ih (by simpa using h))

lemma Echo.split {mark : CodePoint} {stop : PyStr → PyStr → Prop} {left s m' w' : PyStr}
    (h : Echo sim mark stop left s (m' ++ w')) (hm : mark ∉ m') :
    ∃ m w, s = m ++ w ∧ List.Forall₂ sim m m' ∧ Echo sim mark stop (m.reverse ++ left) w w' := by
  induction m' generalizing left s with
  | nil => exact ⟨[], s, rfl, .nil, h⟩
  | cons b m' ih =>
    cases h with
    | mark t hs => simp at hm
    | cons hab h =>
      obtain ⟨m, w, rfl, hmm, hw⟩ := ih h fun hmem => hm (List.mem_cons_of_mem _ hmem)
      exact ⟨_ :: m, w, rfl, .cons hab hmm, by simpa using hw⟩

end Sim

structure Bracketed (isWord : CodePoint → Bool) (r : Regex) (repl : PyStr → PyStr)
    (sim : CodePoint → CodePoint → Prop) (opening closing : CodePoint)
    (stop : PyStr → PyStr → Prop) : Prop where
  refl : ∀ c, sim c c
  shape : ∀ left m t, Hit isWord r left m t → ∃ pre body, repl m = pre ++ opening :: body ∧
    List.Forall₂ sim (m.take pre.length) pre ∧ stop ((m.take pre.length).reverse ++ left)
      (m.drop pre.length ++ t)
  last : ∀ m, (repl m).getLast? = some closing

lemma Replaced.echo {sim : CodePoint → CodePoint → Prop} {opening closing : CodePoint}
    {stop : PyStr → PyStr → Prop}
    (hbr : Bracketed isWord r repl sim opening closing stop) {left s out : PyStr}
    {found : List PyStr} (h : Replaced isWord r repl left s out found) :
    Echo sim opening stop left s out := by
  induction h with
  | nil left => exact .nil left
  | keep hno _ ih => exact .cons (hbr.refl _) ih
  | @hit left m t out found hm _ ih =>
    obtain ⟨pre, body, hrepl, hpre, hstop⟩ := hbr.shape left m t hm
    have hsplit : m ++ t = m.take pre.length ++ (m.drop pre.length ++ t) := by
      rw [← List.append_assoc, List.take_append_drop]
    rw [hrepl, hsplit, List.append_assoc, List.cons_append]
    exact .append hpre (.mark _ hstop)

/-- The pattern `q` has no match that a substitution for `r` could make. -/
structure Unmade (isWord : CodePoint → Bool) (r : Regex) (repl : PyStr → PyStr)
    (sim : CodePoint → CodePoint → Prop)
    (opening closing : CodePoint) (stop : PyStr → PyStr → Prop) (q : Regex)
    (start : CodePoint → Bool) : Prop where
  classes : ∀ p ∈ q.classes, Respects sim p
  behind : ∀ p ∈ q.behind isWord, Respects sim p
  unmarked : ∀ l m w, Accepts isWord q l m w → opening ∉ m ∧ closing ∉ m
  first : ∀ l m w, Accepts isWord q l m w → m.head?.any start = true
  inside : ∀ left m t, Hit isWord r left m t → ∀ l seg w, seg <:+: repl m →
    ¬Accepts isWord q l seg w
  after : q.behind isWord = [] ∨ ∀ left m t, Hit isWord r left m t → t.head?.any start = false
  ahead : q.looksAhead = false ∨ ∀ l m m' w l' w', List.Forall₂ sim m m' →
    Accepts isWord q l' m' w' →
    ¬stop (m.reverse ++ l) w

section Substitution
variable {sim : CodePoint → CodePoint → Prop} {opening closing : CodePoint}
    {stop : PyStr → PyStr → Prop}
  {q : Regex} {start : CodePoint → Bool}

lemma Unmade.accepts_old (hu : Unmade isWord r repl sim opening closing stop q start)
    {left left' s m' w' : PyStr} (hl : ∀ p ∈ q.behind isWord, left.head?.any p = left'.head?.any p)
    (he : Echo sim opening stop left s (m' ++ w')) (h : Accepts isWord q left' m' w') :
    ∃ m w, s = m ++ w ∧ Accepts isWord q left m w := by
  obtain ⟨m, w, rfl, hm, hew⟩ := he.split (hu.unmarked _ _ _ h).1
  refine ⟨m, w, rfl, accepts_of_similar hu.classes hu.behind hm hl (fun hahead => ?_) h⟩
  cases hew with
  | nil => rfl
  | mark t hstop =>
    rcases hu.ahead with hno | hno
    · simp [hahead] at hno
    · exact absurd hstop (hno _ _ _ _ _ _ hm h)
  | cons hab _ => simpa using hu.behind isWord (isWord_mem_behind hahead) _ _ hab

lemma Unmade.not_in_replacement (hu : Unmade isWord r repl sim opening closing stop q start)
    (hbr : Bracketed isWord r repl sim opening closing stop) {left m t out u m' w' : PyStr}
    (hm : Hit isWord r left m t) (hs : repl m ++ out = u ++ m' ++ w')
    (hlt : u.length < (repl m).length) (l : PyStr) :
    ¬Accepts isWord q l m' w' := by
  intro h
  rw [List.append_assoc] at hs
  obtain ⟨y, hy⟩ : u <+: repl m :=
    List.prefix_of_prefix_length_le (hs ▸ List.prefix_append u (m' ++ w'))
      (List.prefix_append (repl m) out) hlt.le
  have hrest : y ++ out = m' ++ w' := by
    rw [← hy, List.append_assoc] at hs
    exact List.append_cancel_left hs
  have hclosing : closing ∈ y := by
    have hlast := hbr.last m
    have hy0 : y ≠ [] := by
      rintro rfl
      simp [← hy] at hlt
    rw [← hy, List.getLast?_append_of_ne_nil _ hy0] at hlast
    exact List.mem_of_getLast? hlast
  rcases le_total y.length m'.length with hle | hle
  · have hpre : y <+: m' :=
      List.prefix_of_prefix_length_le (List.prefix_append y out)
        (hrest ▸ List.prefix_append m' w') hle
    exact (hu.unmarked _ _ _ h).2 (hpre.subset hclosing)
  · have hpre : m' <+: y :=
      List.prefix_of_prefix_length_le (hrest ▸ List.prefix_append m' w')
        (List.prefix_append y out) hle
    have hin : m' <:+: repl m := hpre.isInfix.trans (hy ▸ (List.suffix_append u y).isInfix)
    exact hu.inside left m t hm l m' w' hin h

theorem Unmade.noMatchFrom (hu : Unmade isWord r repl sim opening closing stop q start)
    (hbr : Bracketed isWord r repl sim opening closing stop) {left left' s out : PyStr}
    {found : List PyStr} (h : Replaced isWord r repl left s out found)
    (hq : q = r ∨ NoMatchFrom isWord q left s)
    (hctx : (∀ p ∈ q.behind isWord, left.head?.any p = left'.head?.any p) ∨
      s.head?.any start = false) :
    NoMatchFrom isWord q left' out := by
  induction h generalizing left' with
  | nil left =>
    intro u m w hs hacc
    obtain ⟨rfl, rfl, rfl⟩ : u = [] ∧ m = [] ∧ w = [] := by simpa using hs.symm
    simpa using hu.first _ _ _ hacc
  | @keep left s out found c hno h ih =>
    refine noMatchFrom_cons.mpr ⟨fun m' w' hs hacc => ?_, ih ?_ (.inl fun p _ => rfl)⟩
    · have hfirst := hu.first _ _ _ hacc
      obtain ⟨d, m', rfl⟩ : ∃ d v, m' = d :: v := by
        cases m' with
        | nil => simp at hfirst
        | cons d v => exact ⟨d, v, rfl⟩
      obtain ⟨rfl, -⟩ := List.cons.inj hs
      rcases hctx with hl | hnone
      · have hecho : Echo sim opening stop left (c :: s) (c :: m' ++ w') :=
          hs ▸ (Replaced.keep hno h).echo hbr
        obtain ⟨m, w, hsplit, hold⟩ := hu.accepts_old hl hecho hacc
        rcases hq with rfl | hq
        · exact matchAt_eq_nil.mp hno m w hsplit hold
        · exact (noMatchFrom_cons.mp hq).1 m w hsplit hold
      · simp only [List.head?_cons, Option.any_some] at hfirst hnone
        simp [hfirst] at hnone
    · exact hq.imp_right fun h => (noMatchFrom_cons.mp h).2
  | @hit left m t out found hm h ih =>
    intro u m' w' hs hacc
    by_cases hlt : u.length < (repl m).length
    · exact hu.not_in_replacement hbr hm hs hlt _ hacc
    · obtain ⟨u', rfl⟩ : repl m <+: u :=
        List.prefix_of_prefix_length_le (List.prefix_append (repl m) out)
          (by rw [hs, List.append_assoc]; exact List.prefix_append ..) (by omega)
      rw [List.append_assoc, List.append_assoc, List.append_cancel_left_eq,
        ← List.append_assoc] at hs
      refine @ih ((repl m).reverse ++ left') (hq.imp_right noMatchFrom_append) ?_ u' m' w' hs ?_
      · rcases hu.after with hb | hafter
        · exact .inl fun p hp => by simp [hb] at hp
        · exact .inr (hafter left m t hm)
      · simpa using hacc

theorem Unmade.noMatch_sub (hu : Unmade isWord r repl sim opening closing stop q start)
    (hbr : Bracketed isWord r repl sim opening closing stop)
    (hne : ∀ left w, ¬Accepts isWord r left [] w) {s : PyStr}
    (hq : q = r ∨ NoMatch isWord q s) : NoMatch isWord q (sub isWord r repl s) :=
  hu.noMatchFrom hbr (replaced_subFrom hne [] s) hq (.inl fun _ _ => rfl)

structure Untouched (isWord : CodePoint → Bool) (r : Regex) (opening closing : CodePoint)
    (seg : PyStr) : Prop where
  head : seg.head? = some opening
  last : seg.getLast? = some closing
  unmarked : ∀ l m w, Accepts isWord r l m w → opening ∉ m ∧ closing ∉ m
  inside : ∀ l m w, m <:+: seg → ¬Accepts isWord r l m w

lemma Hit.accepts {left m t : PyStr} (h : Hit isWord r left m t) : Accepts isWord r left m t := by
  obtain ⟨m', hs, -, hacc⟩ := mem_matchAt.mp (List.mem_of_mem_head? h.2)
  rwa [List.append_cancel_right hs]

lemma Untouched.not_hit {seg : PyStr}
    (hseg : Untouched isWord r opening closing seg) {left m t y w : PyStr}
    (hy : y <:+ seg) (hy0 : y ≠ []) (hs : m ++ t = y ++ w) : ¬Hit isWord r left m t := by
  intro hm
  have hclosing : closing ∈ y := by
    have hlast := hseg.last
    obtain ⟨u, hu⟩ := hy
    rw [← hu, List.getLast?_append_of_ne_nil _ hy0] at hlast
    exact List.mem_of_getLast? hlast
  rcases le_total y.length m.length with hle | hle
  · have hpre : y <+: m :=
      List.prefix_of_prefix_length_le (hs ▸ List.prefix_append y w) (List.prefix_append m t) hle
    exact (hseg.unmarked _ _ _ hm.accepts).2 (hpre.subset hclosing)
  · have hpre : m <+: y :=
      List.prefix_of_prefix_length_le (List.prefix_append m t) (hs ▸ List.prefix_append y w) hle
    exact hseg.inside _ _ _ (hpre.isInfix.trans hy.isInfix) hm.accepts

lemma Untouched.kept {seg : PyStr} (hseg : Untouched isWord r opening closing seg)
    {left s out y w : PyStr} {found : List PyStr} (h : Replaced isWord r repl left s out found)
    (hy : y <:+ seg) (hs : s = y ++ w) :
    ∃ w', out = y ++ w' := by
  induction h generalizing y with
  | nil left =>
    obtain ⟨rfl, rfl⟩ : y = [] ∧ w = [] := by simpa using hs.symm
    exact ⟨[], rfl⟩
  | @keep left s out found c hno h ih =>
    cases y with
    | nil => exact ⟨_, rfl⟩
    | cons d y =>
      rw [List.cons_append, List.cons.injEq] at hs
      obtain ⟨rfl, hs⟩ := hs
      obtain ⟨w', rfl⟩ := ih ((List.suffix_cons c y).trans hy) hs
      exact ⟨w', rfl⟩
  | @hit left m t out found hm h ih =>
    cases y with
    | nil => exact ⟨_, rfl⟩
    | cons d y => exact absurd hm (hseg.not_hit hy (by simp) hs)

theorem Untouched.infix_replaced {seg : PyStr} (hseg : Untouched isWord r opening closing seg)
    {left s out u w : PyStr} {found : List PyStr} (h : Replaced isWord r repl left s out found)
    (hs : s = u ++ (seg ++ w)) : seg <:+: out := by
  have hseg0 : seg ≠ [] := by
    rintro rfl
    simpa using hseg.head
  induction h generalizing u with
  | nil left => simp [hseg0] at hs
  | @keep left s out found c hno h ih =>
    cases u with
    | nil =>
      obtain ⟨w', hw'⟩ := hseg.kept (Replaced.keep hno h) (List.suffix_refl seg) hs
      exact hw' ▸ (List.prefix_append seg w').isInfix
    | cons d u =>
      rw [List.cons_append, List.cons.injEq] at hs
      exact (ih hs.2).trans (List.suffix_cons c out).isInfix
  | @hit left m t out found hm h ih =>
    rcases Nat.lt_or_ge u.length m.length with hlt | hle
    · obtain ⟨y, rfl⟩ : u <+: m :=
        List.prefix_of_prefix_length_le (hs ▸ List.prefix_append u _)
          (List.prefix_append m t) hlt.le
      rw [List.append_assoc, List.append_cancel_left_eq] at hs
      cases y with
      | nil => simp at hlt
      | cons d y =>
        have hd : d = opening := by
          have hhead := congrArg List.head? hs
          rw [List.head?_append_of_ne_nil _ hseg0, hseg.head] at hhead
          exact Option.some.inj hhead
        exact absurd (by simp [hd]) (hseg.unmarked _ _ _ hm.accepts).1
    · obtain ⟨u', rfl⟩ : m <+: u :=
        List.prefix_of_prefix_length_le (List.prefix_append m t) (hs ▸ List.prefix_append u _) hle
      rw [List.append_assoc, List.append_cancel_left_eq] at hs
      exact (ih hs).trans (List.suffix_append _ out).isInfix

theorem Replaced.infix_repl {left s out : PyStr} {found : List PyStr}
    (h : Replaced isWord r repl left s out found) {m : PyStr}
    (hm : m ∈ found) : repl m <:+: out := by
  induction h with
  | nil => simp at hm
  | keep _ _ ih => exact (ih hm).trans (List.suffix_cons _ _).isInfix
  | hit _ _ ih =>
    rcases List.mem_cons.mp hm with rfl | hm
    · exact (List.prefix_append _ _).isInfix
    · exact (ih hm).trans (List.suffix_append _ _).isInfix

end Substitution
end AgentTrajectory.PyRegex
