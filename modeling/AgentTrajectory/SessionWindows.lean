import AgentTrajectory.SessionCorrections
import AgentTrajectory.RouteRuns

/-! The windows of `_windows`. They are runs of the session that cover it, but the messages
carried over from one window to the next are not charged against the budget before the next
message is added: a window can exceed it by what nine messages in a row can exceed it. -/
namespace AgentTrajectory.SessionCorrections
open PyText TaskStitch RouteDay

/-- The characters of messages. -/
def totalChars (env : RouteEnv) (evs : List DayEvent) : ℕ := (evs.map (textChars env)).sum

section Chars
variable {env : RouteEnv}

@[simp] lemma totalChars_append (xs ys : List DayEvent) :
    totalChars env (xs ++ ys) = totalChars env xs + totalChars env ys := by
  simp [totalChars]

@[simp] lemma totalChars_singleton (e : DayEvent) : totalChars env [e] = textChars env e := by
  simp [totalChars]

lemma totalChars_le_of_suffix {xs ys : List DayEvent} (h : xs <:+ ys) :
    totalChars env xs ≤ totalChars env ys := by
  obtain ⟨zs, rfl⟩ := h
  rw [totalChars_append]
  exact Nat.le_add_left _ _

end Chars

section Loop
variable {env : RouteEnv} {maxChars : ℕ}

lemma windowsFrom_append (wins : List (List DayEvent)) (cur : List DayEvent) (n : ℕ)
    (rest : List DayEvent) :
    windowsFrom env maxChars wins cur n rest = wins ++ windowsFrom env maxChars [] cur n rest := by
  induction rest generalizing wins cur n with
  | nil =>
    rw [windowsFrom, windowsFrom]
    split_ifs <;> simp
  | cons e rest ih =>
    rw [windowsFrom, windowsFrom]
    dsimp only
    split_ifs
    · rw [ih, ih ([] ++ [cur]), List.nil_append, List.append_assoc]
    · exact ih _ _ _

def windowsOn (env : RouteEnv) (maxChars : ℕ) (cur rest : List DayEvent) : List (List DayEvent) :=
  windowsFrom env maxChars [] cur (totalChars env cur) rest

lemma windowsOn_nil {cur : List DayEvent} (hcur : cur ≠ []) :
    windowsOn env maxChars cur [] = [cur] := by
  rw [windowsOn, windowsFrom, if_neg hcur, List.nil_append]

lemma windowsOn_close {cur : List DayEvent} (hcur : cur ≠ []) {e : DayEvent} {rest : List DayEvent}
    (h : maxChars < totalChars env (cur ++ [e])) :
    windowsOn env maxChars cur (e :: rest) = cur ::
      windowsOn env maxChars (cur.rtake overlapMsgs ++ [e]) rest := by
  rw [totalChars_append, totalChars_singleton] at h
  rw [windowsOn, windowsFrom, if_pos ⟨hcur, h⟩, windowsFrom_append, List.nil_append,
    List.singleton_append, windowsOn, totalChars_append, totalChars_singleton]
  rfl

lemma windowsOn_extend {cur : List DayEvent} {e : DayEvent} {rest : List DayEvent}
    (h : totalChars env (cur ++ [e]) ≤ maxChars) :
    windowsOn env maxChars cur (e :: rest) = windowsOn env maxChars (cur ++ [e]) rest := by
  rw [totalChars_append, totalChars_singleton] at h
  rw [windowsOn, windowsFrom, if_neg (fun hclose => absurd hclose.2 (not_lt.mpr h)),
    windowsOn, totalChars_append, totalChars_singleton]

lemma windows_cons (e : DayEvent) (rest : List DayEvent) :
    windows env maxChars (e :: rest) = windowsOn env maxChars [e] rest := by
  rw [windows, windowsFrom, if_neg (by simp), windowsOn, totalChars_singleton,
    List.nil_append, Nat.zero_add]

lemma mem_windowsOn_of_long {cur : List DayEvent} (hcur : cur ≠ [])
    (h : maxChars < totalChars env cur)
    (rest : List DayEvent) : cur ∈ windowsOn env maxChars cur rest := by
  cases rest with
  | nil =>
    rw [windowsOn_nil hcur]
    exact List.mem_singleton_self cur
  | cons e rest =>
    rw [windowsOn_close hcur (by rw [totalChars_append]; omega)]
    exact List.mem_cons_self

end Loop

/-- The messages from place `p.1` up to place `p.2`. -/
def slice (evs : List DayEvent) (p : ℕ × ℕ) : List DayEvent := (evs.take p.2).drop p.1

structure Spans (evs : List DayEvent) (wins : List (List DayEvent)) (start : ℕ)
    (spans : List (ℕ × ℕ)) : Prop where
  runs : wins = spans.map (slice evs)
  inside : ∀ p ∈ spans, p.1 < p.2 ∧ p.2 ≤ evs.length
  covers : ∀ i, start ≤ i → i < evs.length → ∃ p ∈ spans, p.1 ≤ i ∧ i < p.2

lemma rtake_suffix (cur : List DayEvent) (n : ℕ) : cur.rtake n <:+ cur := List.drop_suffix _ _

lemma suffix_concat {xs ys : List DayEvent} (h : xs <:+ ys) (e : DayEvent) :
    xs ++ [e] <:+ ys ++ [e] := by
  obtain ⟨pre, rfl⟩ := h
  exact ⟨pre, by rw [List.append_assoc]⟩

lemma slice_of_suffix {before cur rest : List DayEvent} (h : cur <:+ before) :
    slice (before ++ rest) (before.length - cur.length, before.length) = cur := by
  obtain ⟨pre, rfl⟩ := h
  rw [slice, List.take_left, List.length_append, Nat.add_sub_cancel, List.drop_left]

lemma exists_spans (env : RouteEnv) (maxChars : ℕ)
    {before cur : List DayEvent} (rest : List DayEvent)
    (hcur : cur ≠ []) (hsuffix : cur <:+ before) :
    ∃ spans, Spans (before ++ rest) (windowsOn env maxChars cur rest)
    (before.length - cur.length) spans := by
  have hpos := List.length_pos_iff.mpr hcur
  have hle := hsuffix.length_le
  induction rest generalizing before cur with
  | nil =>
    refine ⟨[(before.length - cur.length, before.length)], ?_, ?_, ?_⟩
    · rw [windowsOn_nil hcur, List.map_singleton, slice_of_suffix hsuffix]
    · simp only [List.mem_singleton, forall_eq, List.append_nil]
      omega
    · intro i hlow hhigh
      exact ⟨_, List.mem_singleton_self _, hlow, by simpa using hhigh⟩
  | cons e rest ih =>
    have hsplit : before ++ e :: rest = (before ++ [e]) ++ rest := by simp
    by_cases hclose : maxChars < totalChars env (cur ++ [e])
    · have htail := suffix_concat ((rtake_suffix cur overlapMsgs).trans hsuffix) e
      obtain ⟨spans, hspans⟩ := ih (by simp) htail (by simp) htail.length_le
      rw [← hsplit] at hspans
      refine ⟨(before.length - cur.length, before.length) :: spans, ?_, ?_, ?_⟩
      · rw [windowsOn_close hcur hclose, List.map_cons, slice_of_suffix hsuffix, hspans.runs]
      · intro p hp
        rcases List.mem_cons.mp hp with rfl | hp
        · simp only [List.length_append]
          omega
        · exact hspans.inside p hp
      · intro i hlow hhigh
        by_cases hi : i < before.length
        · exact ⟨_, List.mem_cons_self, hlow, hi⟩
        · obtain ⟨p, hp, hspan⟩ := hspans.covers i (by simp; omega) hhigh
          exact ⟨p, List.mem_cons_of_mem _ hp, hspan⟩
    · have hgrown := suffix_concat hsuffix e
      obtain ⟨spans, hspans⟩ := ih (by simp) hgrown (by simp) hgrown.length_le
      rw [← hsplit] at hspans
      refine ⟨spans, ?_, hspans.inside, ?_⟩
      · rw [windowsOn_extend (not_lt.mp hclose)]
        exact hspans.runs
      · intro i hlow hhigh
        exact hspans.covers i (by simp; omega) hhigh

lemma windows_spans (env : RouteEnv) (maxChars : ℕ) (evs : List DayEvent) :
    ∃ spans, Spans evs (windows env maxChars evs) 0 spans := by
  cases evs with
  | nil => exact ⟨[], rfl, by simp, by simp⟩
  | cons e rest =>
    rw [windows_cons]
    have hspans := exists_spans env maxChars rest (List.cons_ne_nil e []) (List.suffix_refl [e])
    simpa using hspans

def Fits (env : RouteEnv) (maxChars : ℕ) (w : List DayEvent) : Prop :=
  totalChars env w ≤ maxChars ∨ w.length = 1

/-- Every message fits into the budget together with the messages a window before it would carry
over. -/
def OverlapsFit (env : RouteEnv) (maxChars : ℕ) (before rest : List DayEvent) : Prop :=
  ∀ mid e after, rest = mid ++ e :: after →
    totalChars env ((before ++ mid).rtake overlapMsgs ++ [e]) ≤ maxChars

section Budget
variable {env : RouteEnv} {maxChars : ℕ}

lemma overlapsFit_cons {before : List DayEvent} {e : DayEvent} {rest : List DayEvent} :
    OverlapsFit env maxChars before (e :: rest) ↔
      totalChars env (before.rtake overlapMsgs ++ [e]) ≤ maxChars ∧
        OverlapsFit env maxChars (before ++ [e]) rest := by
  constructor
  · intro h
    refine ⟨by simpa using h [] e rest rfl, ?_⟩
    rintro mid x after rfl
    simpa using h (e :: mid) x after rfl
  · rintro ⟨hhead, htail⟩ mid x after hrest
    cases mid with
    | nil =>
      obtain ⟨rfl, rfl⟩ := List.cons.inj hrest
      simpa using hhead
    | cons y mid =>
      obtain ⟨rfl, rfl⟩ := List.cons.inj hrest
      simpa using htail mid x after rfl

lemma rtake_suffix_rtake {cur before : List DayEvent} (h : cur <:+ before) (n : ℕ) :
    cur.rtake n <:+ before.rtake n := by
  refine List.suffix_of_suffix_length_le ((rtake_suffix cur n).trans h) (rtake_suffix before n) ?_
  have hle := h.length_le
  simp only [List.rtake, List.length_drop]
  omega

lemma rtake_eq_of_suffix {cur before : List DayEvent} (h : cur <:+ before)
    {n : ℕ} (hn : n ≤ cur.length) :
    cur.rtake n = before.rtake n := by
  have hle := h.length_le
  refine (rtake_suffix_rtake h n).eq_of_length ?_
  simp only [List.rtake, List.length_drop]
  omega

lemma fits_windowsOn {before cur : List DayEvent} (rest : List DayEvent) (hcur : cur ≠ [])
    (hsuffix : cur <:+ before)
    (hfits : Fits env maxChars cur) (h : OverlapsFit env maxChars before rest) :
    ∀ w ∈ windowsOn env maxChars cur rest, Fits env maxChars w := by
  induction rest generalizing before cur with
  | nil =>
    rw [windowsOn_nil hcur]
    simpa using hfits
  | cons e rest ih =>
    obtain ⟨hhead, htail⟩ := overlapsFit_cons.mp h
    by_cases hclose : maxChars < totalChars env (cur ++ [e])
    · rw [windowsOn_close hcur hclose]
      have hcarried : totalChars env (cur.rtake overlapMsgs ++ [e]) ≤ maxChars :=
        (totalChars_le_of_suffix (suffix_concat (rtake_suffix_rtake hsuffix overlapMsgs) e)).trans
          hhead
      intro w hw
      rcases List.mem_cons.mp hw with rfl | hw
      · exact hfits
      · exact ih (by simp) (suffix_concat ((rtake_suffix cur _).trans hsuffix) e)
          (Or.inl hcarried) htail w hw
    · rw [windowsOn_extend (not_lt.mp hclose)]
      exact ih (by simp) (suffix_concat hsuffix e) (Or.inl (not_lt.mp hclose)) htail

lemma overlapsFit_of_fits {before cur : List DayEvent} (rest : List DayEvent) (hcur : cur ≠ [])
    (hsuffix : cur <:+ before) (hlong : cur = before ∨ overlapMsgs < cur.length)
    (h : ∀ w ∈ windowsOn env maxChars cur rest, Fits env maxChars w) :
    OverlapsFit env maxChars before rest := by
  induction rest generalizing before cur with
  | nil =>
    intro mid e after hrest
    simp at hrest
  | cons e rest ih =>
    rw [overlapsFit_cons]
    by_cases hclose : maxChars < totalChars env (cur ++ [e])
    · rw [windowsOn_close hcur hclose] at h
      have hpos := List.length_pos_iff.mpr hcur
      have hcarried : totalChars env (cur.rtake overlapMsgs ++ [e]) ≤ maxChars := by
        by_contra hover
        rcases h _ (List.mem_cons_of_mem _ (mem_windowsOn_of_long (by simp) (not_le.mp hover) rest))
          with hle | hone
        · exact hover hle
        · simp [List.rtake, overlapMsgs] at hone
          omega
      have hmany : overlapMsgs < cur.length := by
        by_contra hfew
        have hall : cur.rtake overlapMsgs = cur := by
          rw [List.rtake, Nat.sub_eq_zero_of_le (not_lt.mp hfew), List.drop_zero]
        rw [hall] at hcarried
        omega
      have hsame := rtake_eq_of_suffix hsuffix hmany.le
      refine ⟨hsame ▸ hcarried,
        ih (by simp) (suffix_concat ((rtake_suffix cur _).trans hsuffix) e) (Or.inr ?_)
        fun w hw => h w (List.mem_cons_of_mem _ hw)⟩
      simp [List.rtake]
      omega
    · rw [windowsOn_extend (not_lt.mp hclose)] at h
      refine ⟨?_, ih (by simp) (suffix_concat hsuffix e) ?_ h⟩
      · refine (totalChars_le_of_suffix (suffix_concat ?_ e)).trans (not_lt.mp hclose)
        rcases hlong with rfl | hlong
        · exact rtake_suffix _ _
        · rw [← rtake_eq_of_suffix hsuffix hlong.le]
          exact rtake_suffix _ _
      · rcases hlong with rfl | hlong
        · exact Or.inl rfl
        · exact Or.inr (by simp; omega)

lemma overlapsFit_iff (e : DayEvent) (rest : List DayEvent) : OverlapsFit env maxChars [e] rest ↔
      ∀ run, run <:+: e :: rest → 2 ≤ run.length → run.length ≤ overlapMsgs + 1 →
        totalChars env run ≤ maxChars := by
  constructor
  · rintro h run ⟨pre, post, hrun⟩ htwo hnine
    obtain ⟨init, x, rfl⟩ := (List.eq_nil_or_concat' run).resolve_left (by rintro rfl; simp at htwo)
    rw [List.length_append, List.length_singleton] at htwo hnine
    obtain ⟨y, mid, hmid⟩ :=
      List.exists_cons_of_length_pos (show 0 < (pre ++ init).length by simp; omega)
    have hinit : init <:+ (y :: mid).rtake overlapMsgs := by
      have hlast := rtake_suffix_rtake (List.suffix_append pre init) overlapMsgs
      rwa [List.rtake, Nat.sub_eq_zero_of_le (by omega), List.drop_zero, hmid] at hlast
    have hevs : e :: rest = y :: (mid ++ x :: post) := by
      rw [← hrun, ← List.cons_append, ← hmid]
      simp
    obtain ⟨rfl, rfl⟩ := List.cons.inj hevs
    exact (totalChars_le_of_suffix (suffix_concat hinit x)).trans (h mid x post rfl)
  · rintro h mid x after rfl
    refine h _ ?_ ?_ ?_
    · obtain ⟨pre, hpre⟩ := rtake_suffix ([e] ++ mid) overlapMsgs
      exact ⟨pre, after, by rw [← List.append_assoc pre, hpre]; simp⟩
    · simp [List.rtake, overlapMsgs]
      omega
    · simp [List.rtake]
      omega

end Budget

/-- The windows of a session are runs of it, together they hold every message, and none but a
single message exceeds the budget, exactly when no two to nine messages in a row exceed it. -/
theorem windows_fit_iff (env : RouteEnv) (maxChars : ℕ) (evs : List DayEvent) :
    ((∃ spans : List (ℕ × ℕ), windows env maxChars evs = spans.map (fun p =>
      (evs.take p.2).drop p.1) ∧
        (∀ p ∈ spans, p.1 < p.2 ∧ p.2 ≤ evs.length) ∧ ∀ i < evs.length,
          ∃ p ∈ spans, p.1 ≤ i ∧ i < p.2) ∧
      ∀ w ∈ windows env maxChars evs, totalChars env w ≤ maxChars ∨ w.length = 1) ↔
      ∀ run, run <:+: evs → 2 ≤ run.length → run.length ≤ overlapMsgs + 1 →
        totalChars env run ≤ maxChars := by
  have hspans : ∃ spans : List (ℕ × ℕ), windows env maxChars evs = spans.map (fun p =>
    (evs.take p.2).drop p.1) ∧
      (∀ p ∈ spans, p.1 < p.2 ∧ p.2 ≤ evs.length) ∧ ∀ i < evs.length,
        ∃ p ∈ spans, p.1 ≤ i ∧ i < p.2 := by
    obtain ⟨spans, h⟩ := windows_spans env maxChars evs
    exact ⟨spans, h.runs, h.inside, fun i hi => h.covers i (Nat.zero_le i) hi⟩
  rw [and_iff_right hspans]
  cases evs with
  | nil =>
    refine iff_of_true (by simp [windows, windowsFrom]) ?_
    intro run hrun htwo _
    rw [List.infix_nil.mp hrun] at htwo
    simp at htwo
  | cons e rest =>
    rw [windows_cons, ← overlapsFit_iff]
    exact ⟨overlapsFit_of_fits rest (by simp) (List.suffix_refl _) (Or.inl rfl),
      fits_windowsOn rest (by simp) (List.suffix_refl _) (Or.inr rfl)⟩

/-- With a budget of twenty characters the second window of two messages carries the first. -/
theorem carried_message_exceeds_budget :
    ∃ evs : List DayEvent, evs.map (textChars plainRoute) = [12, 12] ∧
      windows plainRoute 20 evs = [evs.take 1, evs] ∧
        20 < totalChars plainRoute evs ∧ evs.length ≠ 1 :=
  ⟨[⟨⟨1, .bot, py "m1", [], py "port is 8080"⟩, py "bot"⟩,
    ⟨⟨2, .user, py "m2", py "m1", py "no, use 9090"⟩, py "Ann"⟩],
    by decide +kernel⟩

end AgentTrajectory.SessionCorrections
