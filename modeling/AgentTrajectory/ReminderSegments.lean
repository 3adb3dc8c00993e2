import AgentTrajectory.ExportContext
import AgentTrajectory.LeftmostSegments

/-! The reminders in a user text. `_split_system_reminders` cuts the text at the matches of
`<system-reminder>.*?</system-reminder>\s*`; the walk over the text and the loop over the matches
give the same segments. -/
namespace AgentTrajectory.ExportContext
open PyText LeftmostSegments

def openTag : PyStr := py "<system-reminder>"
def closeTag : PyStr := py "</system-reminder>"

lemma untilClose_eq (s : PyStr) :
    untilClose s = (cut closeTag s).map fun q => (q.1 ++ (closeTag ++ q.2.takeWhile isSpace),
      q.2.dropWhile isSpace) := by
  have hlength : closeTag.length = 18 := by decide
  induction s with
  | nil => rfl
  | cons c s ih =>
    rw [untilClose, cut, ← closeTag, hlength]
    split_ifs with hstart
    · have htake : (c :: s).take 18 = closeTag := by
        rw [← hlength]
        exact (List.prefix_iff_eq_take.mp ((startswith_iff _ _).mp hstart)).symm
      rw [htake]
      rfl
    · rw [ih, Option.map_map, Option.map_map]
      rfl

lemma matchReminder_of_not_start {s : PyStr} (h : ¬openTag <+: s) : matchReminder s = none := by
  rw [matchReminder, ← openTag, if_neg (mt (startswith_iff _ _).mp h)]

lemma matchReminder_open (s : PyStr) : matchReminder (openTag ++ s) =
      (cut closeTag s).map fun q => (openTag ++ (q.1 ++ (closeTag ++ q.2.takeWhile isSpace)),
        q.2.dropWhile isSpace) := by
  have hlength : openTag.length = 17 := by decide
  rw [matchReminder, ← openTag, if_pos (startswith_append _ _), ← hlength, List.drop_left,
    List.take_left, untilClose_eq, Option.map_map]
  rfl

theorem matchReminder_eq_some_iff {s m rest : PyStr} : matchReminder s = some (m, rest) ↔
      ∃ x w, cut closeTag (x ++ closeTag ++ (w ++ rest)) = some (x, w ++ rest) ∧
        m = openTag ++ (x ++ (closeTag ++ w)) ∧
        s = m ++ rest ∧ (∀ c ∈ w, isSpace c = true) ∧ ∀ c ∈ rest.head?, isSpace c = false := by
  constructor
  · intro h
    by_cases hstart : openTag <+: s
    · obtain ⟨t, rfl⟩ := hstart
      rw [matchReminder_open] at h
      obtain ⟨⟨x, t'⟩, hcut, heq⟩ := Option.map_eq_some_iff.mp h
      obtain ⟨rfl, rfl⟩ := Prod.mk.inj heq
      have hspaces := List.takeWhile_append_dropWhile (p := isSpace) (l := t')
      obtain rfl := cut_append_eq hcut
      refine ⟨x, t'.takeWhile isSpace, by rwa [hspaces], rfl, ?_, fun c hc =>
        List.mem_takeWhile_imp hc, fun c hc => ?_⟩
      · simp only [List.append_assoc, hspaces]
      · have hhead := List.head?_dropWhile_not isSpace t'
        rw [hc] at hhead
        simpa using hhead
    · rw [matchReminder_of_not_start hstart] at h
      cases h
  · rintro ⟨x, w, hcut, rfl, rfl, hw, hrest⟩
    obtain ⟨htake, hdrop⟩ := PyJson.takeWhile_all hw hrest
    have hs : openTag ++ (x ++ (closeTag ++ w)) ++ rest = openTag ++ (x ++ closeTag ++ (w ++ rest)) := by
      simp only [List.append_assoc]
    rw [hs, matchReminder_open, hcut, Option.map_some, htake, hdrop]

theorem matchReminder_eq_none_iff {s : PyStr} :
    matchReminder s = none ↔ ¬∃ x b, s = openTag ++ (x ++ (closeTag ++ b)) := by
  by_cases hstart : openTag <+: s
  · obtain ⟨t, rfl⟩ := hstart
    rw [matchReminder_open, Option.map_eq_none_iff, cut_eq_none_iff, not_iff_not]
    constructor
    · rintro ⟨x, b, rfl⟩
      exact ⟨x, b, by rw [List.append_assoc]⟩
    · rintro ⟨x, b, heq⟩
      exact ⟨x, b, by rw [List.append_cancel_left heq, List.append_assoc]⟩
  · refine iff_of_true (matchReminder_of_not_start hstart) ?_
    rintro ⟨x, b, rfl⟩
    exact hstart (List.prefix_append _ _)

/-- `_SYSTEM_REMINDER_RE`. -/
def reminder : Pattern CodePoint where
  first := matchReminder
  append_eq h := by
    obtain ⟨x, w, -, rfl, rfl, -⟩ := matchReminder_eq_some_iff.mp h
    rfl
  ne_nil h := by
    obtain ⟨x, w, -, rfl, -⟩ := matchReminder_eq_some_iff.mp h
    exact List.append_ne_nil_of_left_ne_nil (by decide) _

lemma remindersFrom_segmented (cur : PyStr) (n : ℕ) (s : PyStr)
    (h : Quiet reminder cur.reverse s) (hn : s.length < n) :
    Segmented reminder (cur.reverse ++ s) (remindersFrom cur n s) := by
  have hbody : (if cur.isEmpty then [] else [(false, cur.reverse)]) = body cur.reverse := by
    cases cur <;> simp [body]
  induction n generalizing cur s with
  | zero => omega
  | succ n ih =>
    cases s with
    | nil =>
      rw [remindersFrom, hbody, List.append_nil]
      exact .last h
    | cons c s =>
      rw [remindersFrom]
      cases hm : matchReminder (c :: s) with
      | none =>
        have hquiet := h.concat hm
        have hstep := ih (c :: cur) s (by rwa [List.reverse_cons]) (Nat.lt_of_succ_lt_succ hn) (by simp [body])
        rwa [List.reverse_cons, List.append_assoc] at hstep
      | some q =>
        obtain ⟨m, rest⟩ := q
        have happ := reminder.append_eq hm
        have hpos := List.length_pos_iff.mpr (reminder.ne_nil hm)
        have hlen := congrArg List.length happ
        rw [List.length_append] at hlen
        have hrest := ih [] rest (quiet_nil rest) (by omega) rfl
        rw [← happ] at h hm ⊢
        simp only [hbody]
        exact .hit h hm hrest

lemma splitSystemReminders_of_ne_nil {text : PyStr} (h : text ≠ []) :
    Segmented reminder text (splitSystemReminders text) := by
  have hsegs := remindersFrom_segmented [] (text.length + 1) text (quiet_nil text) (Nat.lt_succ_self _)
  rw [splitSystemReminders]
  split_ifs with hempty
  · have hnil := hsegs.flatten
    rw [List.isEmpty_iff.mp hempty] at hnil
    exact absurd hnil.symm h
  · exact hsegs

lemma splitSystemReminders_flatten (text : PyStr) : ((splitSystemReminders text).map Prod.snd).flatten = text := by
  by_cases h : text = []
  · rw [h]
    rfl
  · exact (splitSystemReminders_of_ne_nil h).flatten

lemma no_reminder_of_quiet {u rest : PyStr} (h : Quiet reminder u rest) :
    ¬∃ a x b, u = a ++ (openTag ++ (x ++ (closeTag ++ b))) := by
  rintro ⟨a, x, b, rfl⟩
  have hne : openTag ++ (x ++ (closeTag ++ b)) ≠ [] := List.append_ne_nil_of_left_ne_nil (by decide) _
  refine matchReminder_eq_none_iff.mp (h _ (List.suffix_append a _) hne) ⟨x, b ++ rest, ?_⟩
  simp only [List.append_assoc]

/-- The segments put together are the text, no two bodies stand side by side, and no body has an
opening tag with a closing one behind it. -/
theorem splitSystemReminders_segments (text : PyStr) :
    ((splitSystemReminders text).map Prod.snd).flatten = text ∧
      ((splitSystemReminders text).IsChain fun a b => a.1 = true ∨ b.1 = true) ∧
      ∀ u, (false, u) ∈ splitSystemReminders text → ¬∃ a x b, u = a ++ (openTag ++ (x ++ (closeTag ++ b))) := by
  refine ⟨splitSystemReminders_flatten text, ?_⟩
  by_cases h : text = []
  · subst h
    refine ⟨.singleton _, fun u hu => ?_⟩
    obtain rfl : u = [] := (Prod.mk.inj (List.mem_singleton.mp hu)).2
    exact no_reminder_of_quiet (quiet_nil [])
  · have hsegs := splitSystemReminders_of_ne_nil h
    refine ⟨hsegs.isChain, fun u hu => ?_⟩
    obtain ⟨rest, hquiet⟩ := hsegs.quiet hu
    exact no_reminder_of_quiet hquiet

end AgentTrajectory.ExportContext
