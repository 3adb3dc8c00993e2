import AgentTrajectory.GoldAdjudications
import AgentTrajectory.PyJsonRoundtrip

/-! A rendered review sheet, read back line by line. Where no name, text, source or id brings in a
line break of its own, the cards are found under their numbers and each message line gives its
label, the name up to a closing bracket, and a part of the shown text. -/
namespace AgentTrajectory.GoldAdjudications
open PyText PyDict PyJson RouteDay GoldReviewSheet NearestSettling RecheckPool

variable {env : RouteEnv} {evs : List SheetEvent} {w : Window} {cards : List Card} {card : Card}

/-- What the sheet shows brings in no line break: the names and texts of the shown messages, as far
as they are shown, and of every card the sources, the quote, what was wrong and the ids that are
listed. -/
structure ShownClean (env : RouteEnv) (evs : List SheetEvent) (w : Window) (cards : List Card) :
    Prop where
  names : ∀ card ∈ cards, ∀ i ∈ shownPlaces evs w card, oneLine ((evs.get i).name.getD []) = true
  texts : ∀ card ∈ cards, ∀ i ∈ shownPlaces evs w card,
    oneLine (shownText env card (evs.get i)) = true
  offs : ∀ card ∈ cards, ∀ t ∈ offTranscript evs w card, oneLine t = true
  srcs : ∀ card ∈ cards, ∀ s ∈ card.srcs, oneLine s = true
  quotes : ∀ card ∈ cards, oneLine (flat env card.botErrorQuote 90) = true
  whats : ∀ card ∈ cards, oneLine (flat env (join (py "; ") card.whats) 160) = true

/-- What is assumed of `\d` and `\w`. -/
structure SheetClasses (env : RouteEnv) : Prop where
  digit : ∀ d < 10, env.env.decimal (Fin.ofNat _ (48 + d)) = some d
  star : env.env.isDecimal (cp '*') = false
  space : env.env.isDecimal (cp ' ') = false
  wideSpace : env.env.isDecimal (cp '　') = false
  notWord : env.env.isWord (cp '　') = false

lemma oneLine_join {sep : PyStr} (hsep : oneLine sep = true) {parts : List PyStr}
    (h : ∀ p ∈ parts, oneLine p = true) : oneLine (join sep parts) = true := by
  induction parts with
  | nil => rfl
  | cons p parts ih =>
    cases parts with
    | nil => exact h p List.mem_cons_self
    | cons q parts =>
      rw [join, oneLine_append, oneLine_append]
      exact ⟨⟨h p List.mem_cons_self, hsep⟩, ih fun r hr => h r (List.mem_cons_of_mem _ hr)⟩

def sheetTexts : List String :=
  ["L", "**", "- ", " 〔", "·", "〕", "　", " ", "　↩", "(更早)", "None",
    "«猜t0?»", "«猜B?»", "«猜C?»", "真人",
    "bot", "sys忽略", "- 　⋯（省略中间 ", " 条非回复链消息）⋯", "- 　⋯（窗口超 ", " 条已截断，越界的猜测见卡尾反查）⋯", "- 机器猜(可能错)：",
    "B?错句「", "」；", "what=", "- ❓三条猜测都没落进事件流，需 msg_id 反查", "越界猜测反查：",
    "**你填**：判定=☐合格 ☐不合格(判据#__)　｜　真t0=L__　真B=L__　真C=L__", "## #", "　来源:", "+"]

lemma oneLine_ofList {l : List Char} (h : (l.all fun c => !isLineBreak (cp c)) = true) :
    oneLine (py (String.ofList l)) = true := by
  rw [py, String.toList_ofList, oneLine, List.all_map]
  exact h

lemma oneLine_texts : ∀ t ∈ sheetTexts, oneLine (py t) = true := by
  simp only [sheetTexts, List.forall_mem_cons, List.not_mem_nil,
    false_imp_iff, implies_true, and_true]
  and_intros <;> exact oneLine_ofList (by decide)

lemma splitOn_oneLine {s : PyStr} (h : oneLine s = true) : s.splitOn (cp '\n') = [s] := by
  have hnot : cp '\n' ∉ s := fun hmem => by
    have := List.all_eq_true.mp h _ hmem
    exact absurd this (by decide)
  have hsplit := @List.splitOn_intercalate _ [s] _ _ (cp '\n') (by simpa using hnot) (by simp)
  simpa [List.intercalate] using hsplit

lemma splitOn_join {ls : List PyStr} (h : ls ≠ []) :
    (join (py "\n") ls).splitOn (cp '\n') = ls.flatMap fun l => l.splitOn (cp '\n') := by
  induction ls with
  | nil => exact absurd rfl h
  | cons l ls ih =>
    cases ls with
    | nil => simp [join]
    | cons l' ls =>
      have happend : join (py "\n") (l :: l' :: ls) = l ++ cp '\n' ::
          join (py "\n") (l' :: ls) := by
        rw [join, List.append_assoc]
        rfl
      rw [happend, List.splitOn, List.splitOnP_append_cons _ _ (by simp)]
      exact congrArg (l.splitOn (cp '\n') ++ ·) (ih (by simp))

lemma filterMap_splitlines_oneLine {β : Type} {f : PyStr → Option β} (hf : f [] = none) {s : PyStr}
    (h : oneLine s = true) : (splitlines s).filterMap f = (f s).toList := by
  rw [splitlines_oneLine h]
  split_ifs with hs
  · rw [hs, hf]
    rfl
  · cases hfs : f s <;> simp [hfs]

lemma bodyText_eq (lines : List PyStr) : bodyText lines = join (py "\n") ([] :: lines) := by
  induction lines with
  | nil => rfl
  | cons l lines ih =>
    rw [bodyText, List.flatMap_cons, ← bodyText, ih]
    cases lines with
    | nil => simp [join]; rfl
    | cons l' lines => simp [join]; rfl

lemma filterMap_bodyText {β : Type} {f : PyStr → Option β} (hf : f [] = none) {lines : List PyStr}
    (h : ∀ l ∈ lines, oneLine l = true) :
    (splitlines (bodyText lines)).filterMap f = lines.filterMap f := by
  have hnil : (splitlines []).filterMap f = [] := rfl
  rw [bodyText_eq, filterMap_splitlines_join hf, List.flatMap_cons, hnil, List.nil_append]
  induction lines with
  | nil => rfl
  | cons l lines ih =>
    rw [List.flatMap_cons, filterMap_splitlines_oneLine hf (h l List.mem_cons_self),
      ih fun l' hl => h l' (List.mem_cons_of_mem _ hl)]
    cases hfl : f l <;> simp [hfl]

lemma after_append (p s : PyStr) : after p (p ++ s) = some s := by
  rw [after, if_pos (startswith_append p s), List.drop_left]

lemma after_cons_ne {c d : CodePoint} {p s : PyStr} (h : c ≠ d) :
    after (c :: p) (d :: s) = none := by
  rw [after, if_neg]
  intro hs
  exact h (List.cons_prefix_cons.mp ((startswith_iff _ _).mp hs)).1

lemma decimal_natDigits (hc : SheetClasses env) (n : ℕ) :
    ∀ c ∈ natDigits n, env.env.decimal c = some (c.val - 48) := by
  intro c hmem
  have hdigit := natDigits_isDigit n c hmem
  simp only [isDigit, Bool.and_eq_true, decide_eq_true_eq] at hdigit
  have hval : c = Fin.ofNat _ (48 + (c.val - 48)) := by
    rw [Nat.add_sub_cancel' hdigit.1]
    exact (Fin.ofNat_val_eq_self c).symm
  have hd := hc.digit (c.val - 48) (by omega)
  rwa [← hval] at hd

lemma isDecimal_natDigits (hc : SheetClasses env) (n : ℕ) :
    ∀ c ∈ natDigits n, env.env.isDecimal c = true := by
  intro c hmem
  rw [TaskStitch.Env.isDecimal, decimal_natDigits hc n c hmem]
  rfl

lemma natDigits_value (hc : SheetClasses env) (n : ℕ) :
    (natDigits n).foldl (fun n c => n * 10 + (env.env.decimal c).getD 0) 0 = n := by
  have hsame : (natDigits n).foldl (fun n c => n * 10 + (env.env.decimal c).getD 0) 0 =
      digitsValue (natDigits n) := by
    refine List.foldl_ext _ _ _ fun m c hmem => ?_
    rw [decimal_natDigits hc n c hmem]
    rfl
  rw [hsame, digitsValue_natDigits]

lemma takeWhile_natDigits (hc : SheetClasses env) (n : ℕ) {c : CodePoint}
    (hd : env.env.isDecimal c = false) (s : PyStr) :
    (natDigits n ++ c :: s).takeWhile env.env.isDecimal = natDigits n :=
  (takeWhile_all (isDecimal_natDigits hc n) (by simpa using hd)).1

lemma cardNumber_heading (hc : SheetClasses env) (k : ℕ) (card : Card) :
    cardNumber env (cardHeading k card) = some k := by
  have hsplit : cardHeading k card =
      py "## #" ++ (natDigits k ++ cp '　' :: (py "来源:" ++ join (py "+") card.srcs)) := by
    rw [cardHeading, List.append_assoc, List.append_assoc]
    rfl
  rw [cardNumber, hsplit, after_append, Option.bind_some]
  simp only [takeWhile_natDigits hc k hc.wideSpace, List.drop_left, natDigits_value hc]
  rw [if_neg]
  simp [natDigits_ne_nil, hc.notWord]

lemma cardNumber_of_head {line : PyStr} (h : line.head? ≠ some (cp '#')) :
    cardNumber env line = none := by
  cases line with
  | nil => rfl
  | cons c line =>
    have hne : cp '#' ≠ c := fun he => h (by rw [he]; rfl)
    rw [cardNumber, show py "## #" = cp '#' :: py "# #" from rfl, after_cons_ne hne]
    rfl

lemma sections_append {pre : List PyStr}
    (h : ∀ l ∈ pre, cardNumber env l = none) (lines : List PyStr) :
    sections env (pre ++ lines) = (pre ++ (sections env lines).1, (sections env lines).2) := by
  induction pre with
  | nil => rfl
  | cons l pre ih =>
    rw [List.cons_append, sections, h l List.mem_cons_self, ih fun l' hl =>
      h l' (List.mem_cons_of_mem _ hl)]
    rfl

lemma sections_cards {α : Type} (number : α → ℕ) {heading : α → PyStr}
    {body : α → List PyStr} {cs : List α}
    (hhead : ∀ c ∈ cs, cardNumber env (heading c) = some (number c))
    (hbody : ∀ c ∈ cs, ∀ l ∈ body c, cardNumber env l = none) :
    sections env (cs.flatMap fun c => heading c :: body c) = ([], cs.map fun c =>
      (number c, body c)) := by
  induction cs with
  | nil => rfl
  | cons c cs ih =>
    have ih := ih (fun c' hc => hhead c' (List.mem_cons_of_mem _ hc)) fun c' hc =>
      hbody c' (List.mem_cons_of_mem _ hc)
    rw [List.flatMap_cons, List.cons_append, sections, hhead c List.mem_cons_self,
      sections_append (hbody c List.mem_cons_self), ih]
    simp

lemma readLine_of_fields {line : PyStr} (h : reviewFields env line = none) :
    readLine env line = none := by
  rw [readLine, h]
  rfl

lemma readLine_of_head {line : PyStr} (h : line.head? ≠ some (cp '-')) :
    readLine env line = none := by
  refine readLine_of_fields ?_
  cases line with
  | nil => rfl
  | cons c line =>
    have hne : cp '-' ≠ c := fun he => h (by rw [he]; rfl)
    rw [reviewFields, show py "- " = cp '-' :: py " " from rfl, after_cons_ne hne]
    rfl

lemma readLine_dash {c : CodePoint} (hstar : c ≠ cp '*') (hl : c ≠ cp 'L') (s : PyStr) :
    readLine env (py "- " ++ c :: s) = none := by
  refine readLine_of_fields ?_
  have hdrop : (c :: s).dropWhile (· == cp '*') = c :: s :=
    List.dropWhile_cons_of_neg (by simpa using hstar)
  rw [reviewFields, after_append]
  simp only [Option.bind_eq_bind, Option.bind_some, hdrop, show py "L" = [cp 'L'] from rfl,
    after_cons_ne (Ne.symm hl), Option.bind_none]

def opensOther : PyStr → Bool
  | c :: d :: e :: _ => c != cp '#' && (c != cp '-' || (d == cp ' ' && e != cp '*' && e != cp 'L'))
  | _ => false

lemma opensOther_ofList {l : List Char} (h : opensOther (l.map cp) = true) :
    opensOther (py (String.ofList l)) = true := by
  rwa [py_ofList]

lemma openings :
    ∀ t ∈ ["- 　⋯（省略中间 ", "- 　⋯（窗口超 ", "- 机器猜(可能错)：", "- ❓三条猜测都没落进事件流，需 msg_id 反查", "越界猜测反查：",
    "**你填**：判定=☐合格 ☐不合格(判据#__)　｜　真t0=L__　真B=L__　真C=L__"], opensOther (py t) = true := by
  simp only [List.forall_mem_cons, List.not_mem_nil, false_imp_iff, implies_true, and_true]
  and_intros <;> exact opensOther_ofList (by decide)

lemma head?_of_opensOther {p : PyStr} (h : opensOther p = true) (s : PyStr) :
    (p ++ s).head? ≠ some (cp '#') := by
  rcases p with - | ⟨c, - | ⟨d, - | ⟨e, p⟩⟩⟩
  · simp [opensOther] at h
  · simp [opensOther] at h
  · simp [opensOther] at h
  · rw [opensOther, Bool.and_eq_true, bne_iff_ne] at h
    exact fun hc => h.1 (Option.some.inj hc)

lemma readLine_of_opensOther {p : PyStr} (h : opensOther p = true) (s : PyStr) :
    readLine env (p ++ s) = none := by
  rcases p with - | ⟨c, - | ⟨d, - | ⟨e, p⟩⟩⟩
  · simp [opensOther] at h
  · simp [opensOther] at h
  · simp [opensOther] at h
  · simp only [opensOther, Bool.and_eq_true, Bool.or_eq_true, bne_iff_ne, beq_iff_eq] at h
    rcases h.2 with hc | ⟨⟨rfl, hstar⟩, hl⟩
    · exact readLine_of_head fun hd => hc (Option.some.inj hd)
    · by_cases hc : c = cp '-'
      · subst hc
        exact readLine_dash hstar hl (p ++ s)
      · exact readLine_of_head fun hd => hc (Option.some.inj hd)

lemma takeWhile_sep (c : CodePoint) (s t : PyStr) :
    (s ++ c :: t).takeWhile (· != c) = s.takeWhile (· != c) := by
  induction s with
  | nil => simp
  | cons d s ih =>
    rw [List.cons_append, List.takeWhile_cons, List.takeWhile_cons, ih]

lemma lastField_sep (c : CodePoint) (s t : PyStr) : lastField c (s ++ c :: t) = lastField c t := by
  rw [lastField, lastField, List.rtakeWhile, List.rtakeWhile, List.reverse_append,
    List.reverse_cons, List.append_assoc, List.singleton_append, takeWhile_sep]

lemma beforeSep_sep (c : CodePoint) (s t : PyStr) :
    (beforeSep c (s ++ c :: t)).map Prod.fst = if s.takeWhile (· != c) = [] then none else
      some (s.takeWhile (· != c)) := by
  obtain ⟨r, hr⟩ : ∃ r, (s ++ c :: t).dropWhile (· != c) = c :: r := by
    induction s with
    | nil => exact ⟨t, by simp⟩
    | cons d s ih =>
      by_cases hd : d = c
      · exact ⟨s ++ c :: t, by simp [hd]⟩
      · obtain ⟨r, hr⟩ := ih
        exact ⟨r, by rw [List.cons_append, List.dropWhile_cons_of_pos (by simpa using hd), hr]⟩
  rw [beforeSep, drop_length_takeWhile, hr, show c :: r = [c] ++ r from rfl,
    after_append, takeWhile_sep]
  split_ifs <;> rfl

lemma beforeSep_of_not_mem {c : CodePoint} {s : PyStr} (hs : c ∉ s) (hne : s ≠ []) (t : PyStr) :
    beforeSep c (s ++ c :: t) = some (s, t) := by
  have hall : ∀ d ∈ s, (d != c) = true := fun d hd => by simpa using fun he : d = c => hs (he ▸ hd)
  obtain ⟨htake, hdrop⟩ := takeWhile_all (r := c :: t) hall (by simp)
  rw [beforeSep, drop_length_takeWhile, htake, hdrop, if_neg hne,
    show c :: t = [c] ++ t from rfl, after_append]
  rfl

lemma dropWhile_stars {stars : PyStr} (hstars : ∀ c ∈ stars, c = cp '*') {d : CodePoint}
    (hd : d ≠ cp '*') (s : PyStr) :
    (stars ++ d :: s).dropWhile (· == cp '*') = d :: s :=
  (takeWhile_all (fun c hc => by simpa using hstars c hc) (by simpa using hd)).2

lemma reviewFields_line (hc : SheetClasses env) {stars tag : PyStr}
    (hstars : ∀ c ∈ stars, c = cp '*')
    (htag : cp '·' ∉ tag) (hne : tag ≠ []) (n : ℕ) (name rest : PyStr) :
    reviewFields env (py "- " ++ (stars ++ (py "L" ++ (natDigits n ++ (stars ++ (py " 〔" ++
      (tag ++ cp '·' :: (name ++ cp '〕' :: rest)))))))) =
      if name.takeWhile (· != cp '〕') = [] then none
      else some (lineLabel n, tag, name.takeWhile (· != cp '〕')) := by
  have hopen : stars ++ (py "L" ++
    (natDigits n ++ (stars ++ (py " 〔" ++ (tag ++ cp '·' :: (name ++ cp '〕' :: rest)))))) =
      stars ++ cp 'L' ::
        (natDigits n ++ (stars ++ (py " 〔" ++ (tag ++ cp '·' :: (name ++ cp '〕' :: rest))))) := rfl
  have hdigits :
      (natDigits n ++ (stars ++ (py " 〔" ++ (tag ++ cp '·' :: (name ++ cp '〕' :: rest))))).takeWhile
        env.env.isDecimal = natDigits n := by
    cases stars with
    | nil => exact takeWhile_natDigits hc n hc.space _
    | cons c stars =>
      obtain rfl := hstars c List.mem_cons_self
      exact takeWhile_natDigits hc n hc.star _
  have hclose :
    (stars ++ (py " 〔" ++ (tag ++ cp '·' :: (name ++ cp '〕' :: rest)))).dropWhile (· == cp '*') =
      py " 〔" ++ (tag ++ cp '·' :: (name ++ cp '〕' :: rest)) := dropWhile_stars hstars (by decide) _
  have hname := beforeSep_sep (cp '〕') name rest
  rw [reviewFields, after_append]
  simp only [Option.bind_eq_bind, Option.bind_some]
  rw [hopen, dropWhile_stars hstars (by decide), show ∀ s, cp 'L' :: s = py "L" ++ s from
    fun _ => rfl, after_append]
  simp only [Option.bind_some, hdigits, List.drop_left, hclose, after_append,
    if_neg (natDigits_ne_nil n), beforeSep_of_not_mem htag hne]
  have hmap : ∀ o : Option (PyStr × PyStr),
      (o.bind fun a => some (py "L" ++ natDigits n, tag, a.1)) =
        (o.map Prod.fst).map fun name => (lineLabel n, tag, name) := by
    intro o
    cases o <;> rfl
  rw [hmap, hname]
  split_ifs <;> rfl

/-- A message as the sheet can be searched for it: its label, the name up to a closing bracket, and
of the shown text what stands behind the last wide space, without the mark of a cut. -/
def lookup (env : RouteEnv) (card : Card) (n : ℕ) (e : SheetEvent) : Option ReviewLine :=
  let name := (e.name.getD (py "None")).takeWhile (· != cp '〕')
  let text := lineText env (shownText env card e)
  if name = [] ∨ text = [] ∨ startswith text (py "⋯") = true then none
  else some ⟨lineLabel n, roleTag (sheetRole env e), name, text⟩

lemma roleTag_spec (r : Role) : cp '·' ∉ roleTag r ∧ roleTag r ≠ [] := by
  cases r <;> decide

lemma messageLine_eq (card : Card) (labels : Dict PyStr PyStr) (n : ℕ) (e : SheetEvent) :
    ∃ stars rest, (∀ c ∈ stars, c = cp '*') ∧ messageLine env card labels n e =
      py "- " ++ (stars ++
        (py "L" ++ (natDigits n ++ (stars ++ (py " 〔" ++ (roleTag (sheetRole env e) ++
        cp '·' :: (e.name.getD (py "None") ++ cp '〕' ::
          (rest ++ cp '　' :: shownText env card e)))))))) := by
  refine ⟨if sheetRole env e = .user then py "**" else [],
    (if marks card e.msgId = [] then [] else py " " ++ join (py " ") (marks card e.msgId)) ++
      (if e.parentId = [] then [] else py "　↩" ++ (get? labels e.parentId).getD (py "(更早)")), ?_,
        ?_⟩
  · split_ifs
    · simp [show py "**" = [cp '*', cp '*'] from rfl]
    · simp
  · have hdot : ∀ s, cp '·' :: s = py "·" ++ s := fun _ => rfl
    have hbracket : ∀ s, cp '〕' :: s = py "〕" ++ s := fun _ => rfl
    have hwide : ∀ s, cp '　' :: s = py "　" ++ s := fun _ => rfl
    rw [messageLine, lineRest, lineLabel, hdot, hbracket, hwide]
    by_cases hrole : sheetRole env e = .user
    · simp only [if_pos hrole, List.append_assoc]
    · simp only [if_neg hrole, List.append_assoc, List.nil_append]

lemma readLine_messageLine (hc : SheetClasses env) (labels : Dict PyStr PyStr)
    (n : ℕ) (e : SheetEvent) :
    readLine env (messageLine env card labels n e) = lookup env card n e := by
  obtain ⟨stars, rest, hstars, hline⟩ := @messageLine_eq env card labels n e
  obtain ⟨htag, hne⟩ := roleTag_spec (sheetRole env e)
  have htext : lineText env (messageLine env card labels n e) =
      lineText env (shownText env card e) := by
    obtain ⟨front, hfront⟩ : ∃ front, messageLine env card labels n e = front ++
      cp '　' :: shownText env card e :=
      ⟨py "- " ++ (stars ++
        (py "L" ++ (natDigits n ++ (stars ++ (py " 〔" ++ (roleTag (sheetRole env e) ++
        cp '·' :: (e.name.getD (py "None") ++ cp '〕' :: rest))))))), by rw [hline]; simp⟩
    rw [lineText, hfront, lastField_sep, ← lineText]
  rw [readLine, htext, hline, reviewFields_line hc hstars htag hne, lookup]
  by_cases hname : (e.name.getD (py "None")).takeWhile (· != cp '〕') = []
  · simp only [hname, true_or, if_true, Option.bind_none]
  · simp only [hname, false_or, if_false, Option.bind_some]

section Cards
variable (env evs w)

def bodyLines (card : Card) :
    List PyStr := (cardBody env evs w card).flatMap fun l => l.splitOn (cp '\n')

/-- What is looked up for the lines of a card, each with the place of the message it shows. -/
def lookups (card : Card) : List (ReviewLine × ℕ) :=
  (shownPlaces evs w card).zipIdx.filterMap fun p =>
    (lookup env card (p.2 + 1) (evs.get p.1)).map fun l => (l, p.1.val)

end Cards

lemma filterMap_of_opensOther {p : PyStr} (h : opensOther p = true) (s : PyStr) :
    [p ++ s].filterMap (readLine env) = [] :=
  List.filterMap_cons_none (readLine_of_opensOther h s)

lemma readLine_gapLine (prev : Option ℕ) (j : ℕ) :
    (gapLine prev j).filterMap (readLine env) = [] := by
  cases prev with
  | none => rfl
  | some i =>
    rw [gapLine]
    split_ifs
    · rw [List.append_assoc]
      exact filterMap_of_opensOther (openings _ (by simp)) _
    · rfl

lemma filterMap_transcriptFrom (hc : SheetClasses env) (labels : Dict PyStr PyStr)
    (prev : Option ℕ) (n : ℕ) (js : List (Fin evs.length)) :
    (transcriptFrom env evs card labels prev n js).filterMap (readLine env) =
      (js.zipIdx n).filterMap fun p => lookup env card p.2 (evs.get p.1) := by
  induction js generalizing prev n with
  | nil => rfl
  | cons j js ih =>
    rw [transcriptFrom, List.filterMap_append, readLine_gapLine,
      List.nil_append, List.filterMap_cons,
      readLine_messageLine hc, List.zipIdx_cons, List.filterMap_cons, ih]

lemma filterMap_transcript (hc : SheetClasses env) (w : Window) (card : Card) :
    (transcript env evs w card).filterMap (readLine env) =
      (lookups env evs w card).map Prod.fst := by
  have hcut : (if isTruncated evs w card then
      [py "- 　⋯（窗口超 " ++ natDigits w.cap ++ py " 条已截断，越界的猜测见卡尾反查）⋯"] else
        []).filterMap (readLine env) = [] := by
    split_ifs
    · rw [List.append_assoc]
      exact filterMap_of_opensOther (openings _ (by simp)) _
    · rfl
  rw [transcript, List.filterMap_append, hcut, List.append_nil, filterMap_transcriptFrom hc,
    lookups, List.map_filterMap, ← Nat.zero_add 1, List.zipIdx_succ, List.filterMap_map]
  refine List.filterMap_congr fun p _ => ?_
  show lookup env card (p.2 + 1) (evs.get p.1) =
    ((lookup env card (p.2 + 1) (evs.get p.1)).map fun l => (l, p.1.val)).map Prod.fst
  generalize lookup env card (p.2 + 1) (evs.get p.1) = found
  cases found <;> rfl

lemma oneLine_lineLabel (n : ℕ) : oneLine (lineLabel n) = true := by
  rw [lineLabel, oneLine_append]
  exact ⟨oneLine_texts _ (by simp [sheetTexts]), oneLine_natDigits n⟩

lemma oneLine_labelOf {places : List (Fin evs.length)} {m l : PyStr}
    (h : get? (labelOf evs places) m = some l) :
    oneLine l = true := by
  obtain ⟨p, -, hp⟩ := List.mem_map.mp (mem_of_get?_ofPairs h)
  rw [← (Prod.mk.inj hp).2]
  exact oneLine_lineLabel _

lemma oneLine_marks (card : Card) (m : PyStr) : ∀ mark ∈ marks card m, oneLine mark = true := by
  intro mark hmem
  have hmem : mark ∈ [py "«猜t0?»", py "«猜B?»", py "«猜C?»"] := by
    rw [marks] at hmem
    simp only [List.mem_append] at hmem
    rcases hmem with (hmem | hmem) | hmem <;> split_ifs at hmem <;> simp_all
  simp only [List.mem_cons, List.not_mem_nil, or_false] at hmem
  rcases hmem with rfl | rfl | rfl <;> exact oneLine_texts _ (by simp [sheetTexts])

lemma oneLine_roleTag (r : Role) : oneLine (roleTag r) = true := by
  cases r <;> exact oneLine_texts _ (by simp [sheetTexts])

lemma oneLine_messageLine {e : SheetEvent} (hname : oneLine (e.name.getD []) = true)
    (htext : oneLine (shownText env card e) = true) (places : List (Fin evs.length)) (n : ℕ) :
    oneLine (messageLine env card (labelOf evs places) n e) = true := by
  have hname : oneLine (e.name.getD (py "None")) = true := by
    cases hn : e.name with
    | none => exact oneLine_texts "None" (by simp [sheetTexts])
    | some name =>
      rw [hn] at hname
      exact hname
  have hmarks : oneLine (if marks card e.msgId = [] then [] else py " " ++
      join (py " ") (marks card e.msgId)) = true := by
    split_ifs
    · rfl
    · exact oneLine_append.mpr ⟨oneLine_texts _ (by simp [sheetTexts]),
        oneLine_join (oneLine_texts _ (by simp [sheetTexts])) (oneLine_marks card _)⟩
  have hparent : oneLine (if e.parentId = [] then [] else
      py "　↩" ++ (get? (labelOf evs places) e.parentId).getD (py "(更早)")) = true := by
    split_ifs
    · rfl
    · refine oneLine_append.mpr ⟨oneLine_texts _ (by simp [sheetTexts]), ?_⟩
      cases hl : get? (labelOf evs places) e.parentId with
      | none => exact oneLine_texts "(更早)" (by simp [sheetTexts])
      | some l => exact oneLine_labelOf hl
  have hlabel : oneLine (if sheetRole env e = .user then py "**" ++ lineLabel n ++ py "**" else
      lineLabel n) = true := by
    split_ifs
    · simp only [oneLine_append, oneLine_lineLabel,
        oneLine_texts "**" (by simp [sheetTexts]), and_self]
    · exact oneLine_lineLabel n
  rw [messageLine, lineRest]
  simp only [oneLine_append, hname, hmarks, hparent, hlabel, oneLine_roleTag, htext,
    oneLine_texts "- " (by simp [sheetTexts]), oneLine_texts " 〔" (by simp [sheetTexts]),
      oneLine_texts "·" (by simp [sheetTexts]),
    oneLine_texts "〕" (by simp [sheetTexts]), oneLine_texts "　" (by simp [sheetTexts]), and_self]

def Dashed (l : PyStr) : Prop := oneLine l = true ∧ l.head? = some (cp '-')

lemma dashed_gapLine (prev : Option ℕ) (j : ℕ) : ∀ l ∈ gapLine prev j, Dashed l := by
  intro l hl
  cases prev with
  | none => simp [gapLine] at hl
  | some i =>
    rw [gapLine] at hl
    split_ifs at hl
    · obtain rfl := List.mem_singleton.mp hl
      refine ⟨?_, rfl⟩
      simp only [oneLine_append, oneLine_natDigits,
        oneLine_texts "- 　⋯（省略中间 " (by simp [sheetTexts]),
        oneLine_texts " 条非回复链消息）⋯" (by simp [sheetTexts]), and_self]
    · simp at hl

lemma dashed_transcriptFrom (places : List (Fin evs.length)) (prev : Option ℕ) (n : ℕ)
    {js : List (Fin evs.length)} (hjs : ∀ j ∈ js, oneLine ((evs.get j).name.getD []) = true ∧
      oneLine (shownText env card (evs.get j)) = true) :
        ∀ l ∈ transcriptFrom env evs card (labelOf evs places) prev n js, Dashed l := by
  induction js generalizing prev n with
  | nil => simp [transcriptFrom]
  | cons j js ih =>
    intro l hl
    rw [transcriptFrom] at hl
    rcases List.mem_append.mp hl with hl | hl
    · exact dashed_gapLine prev j.val l hl
    · rcases List.mem_cons.mp hl with rfl | hl
      · obtain ⟨hname, htext⟩ := hjs j List.mem_cons_self
        exact ⟨oneLine_messageLine hname htext places n, rfl⟩
      · exact ih _ _ (fun j' hj' => hjs j' (List.mem_cons_of_mem _ hj')) l hl

lemma dashed_transcript (hclean : ShownClean env evs w cards) (hcard : card ∈ cards) :
    ∀ l ∈ transcript env evs w card, Dashed l := by
  intro l hl
  rw [transcript] at hl
  rcases List.mem_append.mp hl with hl | hl
  · exact dashed_transcriptFrom _ _ _ (fun j hj =>
      ⟨hclean.names card hcard j hj, hclean.texts card hcard j hj⟩) l hl
  · split_ifs at hl
    · obtain rfl := List.mem_singleton.mp hl
      refine ⟨?_, rfl⟩
      simp only [oneLine_append, oneLine_natDigits,
        oneLine_texts "- 　⋯（窗口超 " (by simp [sheetTexts]),
        oneLine_texts " 条已截断，越界的猜测见卡尾反查）⋯" (by simp [sheetTexts]), and_self]
    · simp at hl

lemma dashed_guessLine (hclean : ShownClean env evs w cards) (hcard : card ∈ cards) :
    Dashed (guessLine env card) := by
  have hquote : oneLine (if card.botErrorQuote = [] then [] else
      py "B?错句「" ++ flat env card.botErrorQuote 90 ++ py "」；") = true := by
    split_ifs
    · rfl
    · simp only [oneLine_append, hclean.quotes card hcard,
        oneLine_texts "B?错句「" (by simp [sheetTexts]),
        oneLine_texts "」；" (by simp [sheetTexts]), and_self]
  refine ⟨?_, rfl⟩
  rw [guessLine]
  simp only [oneLine_append, hquote, hclean.whats card hcard,
    oneLine_texts "- 机器猜(可能错)：" (by simp [sheetTexts]),
    oneLine_texts "what=" (by simp [sheetTexts]), and_self]

lemma oneLine_offTranscript (hclean : ShownClean env evs w cards) (hcard : card ∈ cards) :
    oneLine (py "越界猜测反查：" ++ join (py "　") (offTranscript evs w card)) = true :=
  oneLine_append.mpr ⟨oneLine_texts _ (by simp [sheetTexts]),
    oneLine_join (oneLine_texts _ (by simp [sheetTexts])) (hclean.offs card hcard)⟩

lemma cardBody_parts (hclean : ShownClean env evs w cards) (hcard : card ∈ cards) :
    ∀ l ∈ cardBody env evs w card, oneLine l = true ∧
    l.head? ≠ some (cp '#') ∨ l = py "\n---\n" := by
  have hdash : ∀ l, Dashed l → oneLine l = true ∧ l.head? ≠ some (cp '#') := fun l hl =>
    ⟨hl.1, by rw [hl.2]; decide⟩
  have hempty : oneLine [] = true ∧ ([] : PyStr).head? ≠ some (cp '#') := by decide
  intro l hl
  rw [cardBody] at hl
  simp only [List.mem_append] at hl
  rcases hl with (((hl | hl) | hl) | hl) | hl
  · rcases List.mem_cons.mp hl with rfl | hl
    · exact .inl (hdash _ (dashed_guessLine hclean hcard))
    · obtain rfl := List.mem_singleton.mp hl
      exact .inl hempty
  · split_ifs at hl
    · obtain rfl := List.mem_singleton.mp hl
      exact .inl ⟨oneLine_texts _
        (by simp [sheetTexts]), by simpa using head?_of_opensOther (openings _ (by simp)) []⟩
    · exact .inl (hdash l (dashed_transcript hclean hcard l hl))
  · obtain rfl := List.mem_singleton.mp hl
    exact .inl hempty
  · split_ifs at hl
    · simp at hl
    · rcases List.mem_cons.mp hl with rfl | hl
      · exact .inl ⟨oneLine_offTranscript hclean hcard,
          head?_of_opensOther (openings _ (by simp)) _⟩
      · obtain rfl := List.mem_singleton.mp hl
        exact .inl hempty
  · rcases List.mem_cons.mp hl with rfl | hl
    · exact .inl ⟨oneLine_texts _
        (by simp [sheetTexts]), by simpa using head?_of_opensOther (openings _ (by simp)) []⟩
    · exact .inr (List.mem_singleton.mp hl)

lemma splitOn_separator : (py "\n---\n").splitOn (cp '\n') = [[], py "---", []] := by decide

lemma bodyLines_spec (hclean : ShownClean env evs w cards) (hcard : card ∈ cards) :
    ∀ l ∈ bodyLines env evs w card, oneLine l = true ∧ cardNumber env l = none := by
  intro l hl
  obtain ⟨p, hp, hl⟩ := List.mem_flatMap.mp hl
  have hhead : oneLine l = true ∧ l.head? ≠ some (cp '#') := by
    rcases cardBody_parts hclean hcard p hp with hp | rfl
    · rw [splitOn_oneLine hp.1] at hl
      obtain rfl := List.mem_singleton.mp hl
      exact hp
    · rw [splitOn_separator] at hl
      simp only [List.mem_cons, List.not_mem_nil, or_false] at hl
      rcases hl with rfl | rfl | rfl <;> decide
  exact ⟨hhead.1, cardNumber_of_head hhead.2⟩

lemma flatMap_splitOn_of_oneLine {ls : List PyStr} (h : ∀ l ∈ ls, oneLine l = true) :
    (ls.flatMap fun l => l.splitOn (cp '\n')) = ls := by
  induction ls with
  | nil => rfl
  | cons l ls ih =>
    rw [List.flatMap_cons, splitOn_oneLine (h l List.mem_cons_self), ih fun l' hl =>
      h l' (List.mem_cons_of_mem _ hl)]
    rfl

lemma filterMap_unread {ls : List PyStr} (hls : ∀ l ∈ ls, oneLine l = true ∧
    readLine env l = none) :
    (ls.flatMap fun l => l.splitOn (cp '\n')).filterMap (readLine env) = [] := by
  rw [flatMap_splitOn_of_oneLine fun l hl => (hls l hl).1]
  exact List.filterMap_eq_nil_iff.mpr fun l hl => (hls l hl).2

lemma readLine_guessLine (card : Card) : readLine env (guessLine env card) = none := by
  rw [guessLine, List.append_assoc, List.append_assoc]
  exact readLine_of_opensOther (openings _ (by simp)) _

lemma filterMap_bodyLines (hc : SheetClasses env) (hclean : ShownClean env evs w cards)
    (hcard : card ∈ cards) :
    (bodyLines env evs w card).filterMap (readLine env) =
      (lookups env evs w card).map Prod.fst := by
  have hempty : oneLine [] = true ∧ readLine env [] = none := ⟨rfl, rfl⟩
  have hguess : ([guessLine env card, []].flatMap fun l =>
    l.splitOn (cp '\n')).filterMap (readLine env) = [] := by
    refine filterMap_unread fun l hl => ?_
    rcases List.mem_cons.mp hl with rfl | hl
    · exact ⟨(dashed_guessLine hclean hcard).1, readLine_guessLine card⟩
    · obtain rfl := List.mem_singleton.mp hl
      exact hempty
  have htranscript : ((if transcript env evs w card = [] then [py "- ❓三条猜测都没落进事件流，需 msg_id 反查"]
      else transcript env evs w card).flatMap fun l =>
        l.splitOn (cp '\n')).filterMap (readLine env) =
        (lookups env evs w card).map Prod.fst := by
    rw [← filterMap_transcript hc]
    split_ifs with hnone
    · rw [hnone]
      refine filterMap_unread fun l hl => ?_
      obtain rfl := List.mem_singleton.mp hl
      exact ⟨oneLine_texts _
        (by simp [sheetTexts]), by simpa using readLine_of_opensOther (openings _ (by simp)) []⟩
    · rw [flatMap_splitOn_of_oneLine fun l hl => (dashed_transcript hclean hcard l hl).1]
  have hoff : ((if offTranscript evs w card = [] then []
      else [py "越界猜测反查：" ++ join (py "　") (offTranscript evs w card), []]).flatMap
        fun l => l.splitOn (cp '\n')).filterMap (readLine env) = [] := by
    refine filterMap_unread fun l hl => ?_
    split_ifs at hl
    · simp at hl
    · rcases List.mem_cons.mp hl with rfl | hl
      · exact ⟨oneLine_offTranscript hclean hcard, readLine_of_opensOther (openings _ (by simp)) _⟩
      · obtain rfl := List.mem_singleton.mp hl
        exact hempty
  have hdashes : readLine env (py "---") = none := readLine_of_fields rfl
  have htail : (cardTail.flatMap fun l => l.splitOn (cp '\n')).filterMap (readLine env) = [] := by
    rw [cardTail, List.flatMap_cons, splitOn_oneLine (oneLine_texts _ (by simp [sheetTexts])),
      List.flatMap_cons, splitOn_separator, List.flatMap_nil]
    refine List.filterMap_eq_nil_iff.mpr fun l hl => ?_
    simp only [List.append_nil, List.mem_append, List.mem_cons, List.not_mem_nil, or_false] at hl
    rcases hl with rfl | rfl | rfl | rfl
    · simpa using readLine_of_opensOther (openings _ (by simp)) []
    · rfl
    · exact hdashes
    · rfl
  have hblank : ([[]].flatMap fun l => l.splitOn (cp '\n')).filterMap (readLine env) = [] :=
    filterMap_unread (by simpa using hempty)
  rw [bodyLines, cardBody]
  simp only [List.flatMap_append, List.filterMap_append, hguess, htranscript, hblank,
    hoff, htail, List.nil_append, List.append_nil]

lemma cardNumber_of_second {c d : CodePoint} (h : c ≠ cp '#' ∨ d ≠ cp '#') (s : PyStr) :
    cardNumber env (c :: d :: s) = none := by
  rw [cardNumber, after, if_neg]
  · rfl
  · intro hs
    have hprefix := (startswith_iff _ _).mp hs
    rw [show py "## #" = cp '#' :: cp '#' :: py " #" from rfl, List.cons_prefix_cons,
      List.cons_prefix_cons] at hprefix
    rcases h with h | h
    · exact h hprefix.1.symm
    · exact h hprefix.2.1.symm

lemma plain_ofList {c d : Char} {l : List Char}
    (h : (((c :: d :: l).all fun c => !isLineBreak (cp c)) && (cp c != cp '#' || cp d != cp '#')) =
      true) {s : PyStr}
    (hs : oneLine s = true) :
    oneLine (py (String.ofList (c :: d :: l)) ++ s) = true ∧
    cardNumber env (py (String.ofList (c :: d :: l)) ++ s) = none := by
  rw [Bool.and_eq_true, Bool.or_eq_true, bne_iff_ne, bne_iff_ne] at h
  rw [oneLine_append, py, String.toList_ofList, oneLine, List.all_map]
  exact ⟨⟨h.1, hs⟩, cardNumber_of_second h.2 _⟩

set_option maxRecDepth 4000 in
lemma preamble_spec : ∀ l ∈ preamble, oneLine l = true ∧ cardNumber env l = none := by
  have hempty : oneLine [] = true ∧ cardNumber env [] = none := ⟨rfl, rfl⟩
  have hlit {c d : Char} {l : List Char}
      (h : (((c :: d :: l).all fun c =>
        !isLineBreak (cp c)) && (cp c != cp '#' || cp d != cp '#')) = true) :
      oneLine (py (String.ofList (c :: d :: l))) = true ∧
        cardNumber env (py (String.ofList (c :: d :: l))) = none := by
    simpa using plain_ofList h (s := []) rfl
  rw [preamble]
  simp only [List.forall_mem_cons, hempty, true_and]
  refine ⟨hlit ?_, hlit ?_, hlit ?_, hlit ?_, hlit ?_, plain_ofList ?_ (oneLine_ofList ?_), by simp⟩
  all_goals decide

lemma oneLine_cardHeading (hclean : ShownClean env evs w cards) (hcard : card ∈ cards) (k : ℕ) :
    oneLine (cardHeading k card) = true := by
  have hsrcs : oneLine (join (py "+") card.srcs) = true :=
    oneLine_join (oneLine_texts _ (by simp [sheetTexts])) (hclean.srcs card hcard)
  rw [cardHeading]
  simp only [oneLine_append, oneLine_natDigits, hsrcs, oneLine_texts "## #" (by simp [sheetTexts]),
    oneLine_texts "　来源:" (by simp [sheetTexts]), and_self]

lemma mem_of_mem_zipIdx {c : Card × ℕ} (h : c ∈ cards.zipIdx) : c.1 ∈ cards := by
  have hmem := List.mem_map_of_mem (f := Prod.fst) h
  rwa [List.zipIdx_map_fst] at hmem

lemma splitOn_render (hclean : ShownClean env evs w cards) :
    (render env evs w cards).splitOn (cp '\n') =
      preamble ++ cards.zipIdx.flatMap fun c => cardHeading (c.2 + 1) c.1 ::
        bodyLines env evs w c.1 := by
  have hne : preamble ≠ [] := List.cons_ne_nil _ _
  rw [render, splitOn_join (List.append_ne_nil_of_left_ne_nil hne _), List.flatMap_append,
    flatMap_splitOn_of_oneLine fun l hl => (@preamble_spec env l hl).1, List.flatMap_assoc]
  congr 1
  refine List.flatMap_congr fun c hc => ?_
  rw [List.flatMap_cons, splitOn_oneLine (oneLine_cardHeading hclean (mem_of_mem_zipIdx hc) _)]
  rfl

theorem parse_render (hc : SheetClasses env) (hclean : ShownClean env evs w cards) :
    parseReviewSheet env evs (render env evs w cards) =
      ofPairs (cards.zipIdx.map fun c =>
        (c.2 + 1, resolveCard env evs ((lookups env evs w c.1).map Prod.fst))) := by
  have hbody : ∀ c ∈ cards.zipIdx, ∀ l ∈ bodyLines env evs w c.1, oneLine l = true ∧
    cardNumber env l = none :=
    fun c hmem => bodyLines_spec hclean (mem_of_mem_zipIdx hmem)
  rw [parseReviewSheet, splitOn_render hclean, sections_append fun l hl => (preamble_spec l hl).2,
    sections_cards (fun c => c.2 + 1) (fun c _ => cardNumber_heading hc _ _) fun c hmem l hl =>
      (hbody c hmem l hl).2, List.map_map]
  refine congrArg ofPairs (List.map_congr_left fun c hmem => ?_)
  simp only [Function.comp_apply]
  rw [filterMap_bodyText rfl fun l hl => (hbody c hmem l hl).1,
    filterMap_bodyLines hc hclean (mem_of_mem_zipIdx hmem)]

end AgentTrajectory.GoldAdjudications
