import AgentTrajectory.PyValue
import AgentTrajectory.PyRegexSub
import AgentTrajectory.PyJsonRoundtrip
import AgentTrajectory.TaskStitch

/-! `principle_distill.py`: a failure is abstracted into principles, and a principle that repeats
a number of the failure is dropped. A number written as a ratio, a range or an arrow counts as one
token, so its parts pass unless they stand alone elsewhere in the text. -/
namespace AgentTrajectory.PrincipleDistill
open PyText PyDict PyJson PyValue PyRegex TaskStitch

def isJoint (c : CodePoint) : Bool := (py ".-/→>~").elem c

def isNumeral (c : CodePoint) : Bool := (py "零一二三四五六七八九十百千万亿").elem c

section Tokens
variable (digit : CodePoint → Bool)

def onDigit (s : PyStr) : Bool := s.head?.any digit

def onJoint : PyStr → Bool
  | [] => false
  | c :: s => isJoint c && onDigit digit s

def numberLength : PyStr → ℕ
  | [] => 0
  | c :: s => if digit c || onJoint digit (c :: s) then numberLength s + 1 else 0

/-- The matches of `_NUM_TOKEN_RE`: runs of digits tied together, or numerals. The first characters,
`skip` many, belong to the last one. -/
def tokensFrom : ℕ → PyStr → List PyStr
  | _, [] => []
  | skip + 1, _ :: s => tokensFrom skip s
  | 0, c :: s =>
      if digit c then
        (c :: s).take (numberLength digit (c :: s)) ::
          tokensFrom (numberLength digit (c :: s) - 1) s
      else if isNumeral c then
        (c :: s).takeWhile isNumeral :: tokensFrom (((c :: s).takeWhile isNumeral).length - 1) s
      else tokensFrom 0 s

def leakedNumberTokens (text : PyStr) : List PyStr := (tokensFrom digit 0 text).dedup

def violatesRedLine (principle sourceWhat : PyStr) : List PyStr :=
  if principle = [] then []
  else ((leakedNumberTokens digit sourceWhat).filter fun t =>
    t ≠ [] && contains t principle).insertionSort (· ≤ ·)

end Tokens

structure Distilled where
  sourceWhat : PyStr
  general : PyStr
  domain : Option PyStr
  domainLabel : Option PyStr
  generalLeak : List PyStr
  domainLeak : List PyStr
  raw : Option PyStr
  deriving DecidableEq

/-- `re.search(r"\{.*\}", raw, re.S)`. -/
def braces : Regex := .all [.one (· == cp '{'), .run (fun _ => true) 0 none, .one (· == cp '}')]

def extractJson (env : Env) (raw : PyStr) :
    Json := ((searchText env.isWord braces raw).bind loads).getD (.obj [])

/-- `v.strip() if isinstance(v, str) and v.strip() else None`. -/
def strippedText : Json → Option PyStr
  | .str s => if strip s = [] then none else some (strip s)
  | _ => none

/-- `(v or "").strip()`. -/
def strippedOrEmpty (v : Json) : Except PyError PyStr :=
  match orEmpty v (.str []) with
  | .str s => .ok (strip s)
  | _ => .error .attributeError

/-- `distill_one`, given what the model answered. -/
def distillOne (env : Env) (what raw : PyStr) : Except PyError Distilled := do
  let d ← asDict (extractJson env raw)
  let general ← strippedOrEmpty (getNone d (py "general"))
  let domain := strippedText (getNone d (py "domain"))
  let label := strippedText (getNone d (py "domain_label"))
  let generalLeak := violatesRedLine env.isDecimal general what
  let domainLeak := violatesRedLine env.isDecimal (domain.getD []) what
  let kept := if generalLeak = [] then general else []
  .ok ⟨what, kept, if domainLeak = [] then domain else none,
    if domainLeak = [] then label else none,
    generalLeak, domainLeak, if kept = [] then some (raw.take 200) else none⟩

section Runs
variable (digit : CodePoint → Bool)

/-- A longest run of digits of the text. -/
def MaximalRun (text run : PyStr) : Prop :=
  ∃ u v, text = u ++ run ++ v ∧ run ≠ [] ∧ (∀ c ∈ run, digit c = true) ∧
    onDigit digit u.reverse = false ∧ onDigit digit v = false

/-- No number goes on here. -/
def Closed (s : PyStr) : Prop := onDigit digit s = false ∧ onJoint digit s = false

/-- A longest run of digits that no joint ties to another one. -/
def IsolatedRun (text run : PyStr) : Prop :=
  ∃ u v, text = u ++ run ++ v ∧ run ≠ [] ∧ (∀ c ∈ run, digit c = true) ∧
    Closed digit u.reverse ∧ Closed digit v

end Runs

/-- What is assumed of `\d`: no space, joint or numeral is among them. -/
structure DigitClass (digit : CodePoint → Bool) : Prop where
  notSpace : ∀ c, digit c = true → isSpace c = false
  notJoint : ∀ c, digit c = true → isJoint c = false
  notNumeral : ∀ c, digit c = true → isNumeral c = false

section Scan
variable {digit : CodePoint → Bool}

lemma tokensFrom_skip (n : ℕ) (s : PyStr) :
    tokensFrom digit n s = tokensFrom digit 0 (s.drop n) := by
  induction s generalizing n with
  | nil => cases n <;> simp [tokensFrom]
  | cons c s ih =>
    cases n with
    | zero => rfl
    | succ n => rw [tokensFrom, ih, List.drop_succ_cons]

lemma tokensFrom_digit {c : CodePoint} {s : PyStr} (h : digit c = true) :
    tokensFrom digit 0 (c :: s) = (c :: s).take (numberLength digit (c :: s)) ::
      tokensFrom digit 0 ((c :: s).drop (numberLength digit (c :: s))) := by
  have hpos : numberLength digit (c :: s) = numberLength digit s + 1 := by simp [numberLength, h]
  rw [tokensFrom, if_pos h, tokensFrom_skip, hpos]
  simp

lemma tokensFrom_numeral {c : CodePoint} {s : PyStr} (hd : digit c = false)
    (h : isNumeral c = true) :
    tokensFrom digit 0 (c :: s) = (c :: s).takeWhile isNumeral ::
      tokensFrom digit 0 ((c :: s).dropWhile isNumeral) := by
  have hdrop : (c :: s).dropWhile isNumeral =
      s.drop (((c :: s).takeWhile isNumeral).length - 1) := by
    rw [List.takeWhile_cons_of_pos h, List.dropWhile_cons_of_pos h,
      List.length_cons, Nat.add_sub_cancel, drop_length_takeWhile]
  rw [tokensFrom, if_neg (by simp [hd]), if_pos h, tokensFrom_skip, hdrop]

lemma tokensFrom_other {c : CodePoint} {s : PyStr} (hd : digit c = false)
    (h : isNumeral c = false) :
    tokensFrom digit 0 (c :: s) = tokensFrom digit 0 s := by
  simp [tokensFrom, hd, h]

lemma numberLength_eq_zero {s : PyStr} : numberLength digit s = 0 ↔ Closed digit s := by
  cases s with
  | nil => simp [numberLength, Closed, onDigit, onJoint]
  | cons c s => cases h : digit c <;> simp [numberLength, Closed, onDigit, h]

lemma closed_drop_numberLength (s : PyStr) : Closed digit (s.drop (numberLength digit s)) := by
  induction s with
  | nil => simp [numberLength, Closed, onDigit, onJoint]
  | cons c s ih =>
    by_cases h : numberLength digit (c :: s) = 0
    · rw [h, List.drop_zero]
      exact numberLength_eq_zero.mp h
    · have hstep : numberLength digit (c :: s) = numberLength digit s + 1 := by
        rw [numberLength] at h ⊢
        split_ifs at h ⊢ <;> simp_all
      rw [hstep, List.drop_succ_cons]
      exact ih

/-- The scan stands in front of a token or outside of one; `left` is what it has passed, reversed.
-/
def Ready (digit : CodePoint → Bool) (left s : PyStr) : Prop :=
  (onDigit digit s = true → Closed digit left) ∧ (onDigit digit left = true → Closed digit s)

lemma ready_of_closed {left s : PyStr} (h : Closed digit s) : Ready digit left s :=
  ⟨fun hs => absurd hs (by simp [h.1]), fun _ => h⟩

lemma ready_nil (s : PyStr) : Ready digit [] s := by
  simp [Ready, Closed, onDigit, onJoint]

lemma ready_cons {c : CodePoint} {left s : PyStr} (hc : digit c = false)
    (h : Ready digit left (c :: s)) :
    Ready digit (c :: left) s := by
  refine ⟨fun hs => ⟨by simp [onDigit, hc], ?_⟩, fun hl => absurd hl (by simp [onDigit, hc])⟩
  rw [onJoint, Bool.and_eq_false_iff, or_iff_not_imp_right]
  intro hl
  have hjoint := (h.2 (by simpa using hl)).2
  rw [onJoint, hs, Bool.and_true] at hjoint
  exact hjoint

lemma closed_numerals {m left : PyStr} (hd : DigitClass digit) (hne : m ≠ [])
    (hm : ∀ c ∈ m, isNumeral c = true) :
    Closed digit (m.reverse ++ left) := by
  obtain ⟨c, t, hct⟩ := List.exists_cons_of_ne_nil (List.reverse_ne_nil_iff.mpr hne)
  have hc : isNumeral c = true := hm c (by rw [← List.mem_reverse, hct]; simp)
  have hnd : digit c = false := by
    by_contra h
    simp [hd.notNumeral c (by simpa using h)] at hc
  have hjoint : isJoint c = false := by
    have hall : ((py "零一二三四五六七八九十百千万亿").all fun c => !isJoint c) = true := by decide +kernel
    simpa using List.all_eq_true.mp hall c (by simpa [isNumeral] using hc)
  rw [hct, List.cons_append]
  exact ⟨by simp [onDigit, hnd], by simp [onJoint, hjoint]⟩

lemma scan_step (hd : DigitClass digit) {left s : PyStr} {c : CodePoint}
    (h : Ready digit left (c :: s)) :
    ∃ k, 1 ≤ k ∧ Ready digit (((c :: s).take k).reverse ++ left) ((c :: s).drop k) ∧
      ((digit c = true ∧ k = numberLength digit (c :: s) ∧
          tokensFrom digit 0 (c :: s) = (c :: s).take k :: tokensFrom digit 0 ((c :: s).drop k)) ∨
        (∀ x ∈ (c :: s).take k, digit x = false) ∧ ∀ t, (∀ x ∈ t, digit x = true) →
          (t ∈ tokensFrom digit 0 (c :: s) ↔ t ∈ tokensFrom digit 0 ((c :: s).drop k))) := by
  by_cases hc : digit c = true
  · exact ⟨numberLength digit (c :: s), by simp [numberLength, hc],
      ready_of_closed (closed_drop_numberLength _), Or.inl ⟨hc, rfl, tokensFrom_digit hc⟩⟩
  · have hc' : digit c = false := by simpa using hc
    by_cases hnum : isNumeral c = true
    · have hall : ∀ x ∈ (c :: s).takeWhile isNumeral, isNumeral x = true := fun x hx =>
        List.mem_takeWhile_imp hx
      have hne : (c :: s).takeWhile isNumeral ≠ [] := by simp [List.takeWhile_cons_of_pos hnum]
      have htake : (c :: s).take ((c :: s).takeWhile isNumeral).length =
        (c :: s).takeWhile isNumeral :=
        (List.prefix_iff_eq_take.mp (List.takeWhile_prefix _)).symm
      refine ⟨((c :: s).takeWhile isNumeral).length,
        List.length_pos_iff.mpr hne, ?_, Or.inr ⟨?_, ?_⟩⟩
      · rw [htake]
        have hclosed := @closed_numerals digit _ left hd hne hall
        exact ⟨fun _ => hclosed, fun hl => absurd hl (by simp [hclosed.1])⟩
      · rw [htake]
        intro x hx
        by_contra hx'
        have := hd.notNumeral x (by simpa using hx')
        simp [hall x hx] at this
      · intro t ht
        rw [tokensFrom_numeral hc' hnum, drop_length_takeWhile, List.mem_cons]
        refine or_iff_right ?_
        rintro rfl
        exact hc (ht c (by simp [List.takeWhile_cons_of_pos hnum]))
    · refine ⟨1, le_rfl, by simpa using ready_cons hc' h,
        Or.inr ⟨by simpa using hc', fun t _ => ?_⟩⟩
      rw [tokensFrom_other hc' (by simpa using hnum)]
      rfl

lemma isolated_of_mem_tokens (hd : DigitClass digit) {left s t : PyStr}
    (hready : Ready digit left s)
    (ht : t ∈ tokensFrom digit 0 s) (hdigits : ∀ c ∈ t, digit c = true) :
    ∃ a b, s = a ++ t ++ b ∧ t ≠ [] ∧ Closed digit (a.reverse ++ left) ∧ Closed digit b := by
  induction hn : s.length using Nat.strong_induction_on generalizing left s with
  | _ n ih =>
    cases s with
    | nil => simp [tokensFrom] at ht
    | cons c s =>
      obtain ⟨k, hk, hready', hstep⟩ := scan_step hd hready
      have hlater : t ∈ tokensFrom digit 0 ((c :: s).drop k) →
          ∃ a b, c :: s = a ++ t ++ b ∧ t ≠ [] ∧
            Closed digit (a.reverse ++ left) ∧ Closed digit b := by
        intro ht'
        obtain ⟨a, b, hsplit, hne, hleft, hright⟩ :=
          ih _ (by simp only [List.length_drop, List.length_cons] at hn ⊢; omega) hready' ht' rfl
        refine ⟨(c :: s).take k ++ a, b, ?_, hne, ?_, hright⟩
        · rw [List.append_assoc, List.append_assoc, ← List.append_assoc a,
            ← hsplit, List.take_append_drop]
        · rw [List.reverse_append, List.append_assoc]
          exact hleft
      rcases hstep with ⟨hc, rfl, htokens⟩ | ⟨-, hsame⟩
      · rw [htokens] at ht
        rcases List.mem_cons.mp ht with rfl | ht
        · exact ⟨[], _, (List.take_append_drop _ _).symm, by simp [numberLength, hc],
            hready.1 (by simpa [onDigit] using hc), closed_drop_numberLength _⟩
        · exact hlater ht
      · exact hlater ((hsame t hdigits).mp ht)

lemma not_closed_of_numberLength {a x left : PyStr} (ha : onDigit digit a = true)
    (h : a.length < numberLength digit (a ++ x)) : ¬Closed digit (a.reverse ++ left) := by
  induction hn : a.length using Nat.strong_induction_on generalizing a left with
  | _ n ih =>
    cases a with
    | nil => simp [onDigit] at ha
    | cons c a =>
      have hc : digit c = true := by simpa [onDigit] using ha
      cases a with
      | nil =>
        rintro ⟨hclosed, -⟩
        simp [onDigit, hc] at hclosed
      | cons d a =>
        have hrest : (d :: a).length < numberLength digit (d :: (a ++ x)) := by
          simpa [numberLength, hc] using h
        by_cases hd : digit d = true
        · have := @ih _ (by simp at hn ⊢; omega) (d :: a) (c :: left)
            (by simpa [onDigit] using hd) hrest rfl
          simpa using this
        · have hcond : (digit d || onJoint digit (d :: (a ++ x))) = true := by
            by_contra hno
            rw [numberLength, if_neg hno] at hrest
            omega
          have hjoint : onJoint digit (d :: (a ++ x)) = true := by simpa [hd] using hcond
          obtain ⟨hd', hnext⟩ := Bool.and_eq_true_iff.mp hjoint
          cases a with
          | nil =>
            rintro ⟨-, hclosed⟩
            simp [onJoint, onDigit, hd', hc] at hclosed
          | cons e a =>
            have hlong : (e :: a).length < numberLength digit (e :: a ++ x) := by
              rw [numberLength, if_pos hcond] at hrest
              simpa using hrest
            have := @ih _ (by simp at hn ⊢; omega) (e :: a) (d :: c :: left)
              (by simpa [onDigit] using hnext) hlong rfl
            simpa using this

lemma numberLength_append {t b : PyStr} (ht : ∀ c ∈ t, digit c = true) :
    numberLength digit (t ++ b) = t.length + numberLength digit b := by
  induction t with
  | nil => simp
  | cons c t ih =>
    rw [List.cons_append, numberLength, ht c (by simp), Bool.true_or, if_pos rfl,
      ih fun d hd => ht d (by simp [hd]), List.length_cons]
    omega

lemma mem_tokens_of_isolated (hd : DigitClass digit) {left a t b : PyStr}
    (hready : Ready digit left (a ++ (t ++ b)))
    (hne : t ≠ []) (hdigits : ∀ c ∈ t, digit c = true) (hleft : Closed digit (a.reverse ++ left))
    (hright : Closed digit b) : t ∈ tokensFrom digit 0 (a ++ (t ++ b)) := by
  induction hn : a.length using Nat.strong_induction_on generalizing left a with
  | _ n ih =>
    obtain ⟨d, t', rfl⟩ := List.exists_cons_of_ne_nil hne
    obtain ⟨c, s, hs⟩ := List.exists_cons_of_ne_nil (show a ++ (d :: t' ++ b) ≠ [] by simp)
    rw [hs] at hready
    obtain ⟨k, hk, hready', hstep⟩ := scan_step hd hready
    rw [← hs] at hready' hstep
    have hlater : k ≤ a.length → d :: t' ∈ tokensFrom digit 0 ((a ++ (d :: t' ++ b)).drop k) := by
      intro hka
      rw [List.drop_append_of_le_length hka] at hready' ⊢
      rw [List.take_append_of_le_length hka] at hready'
      refine ih _ (by rw [List.length_drop]; omega) hready' ?_ rfl
      rwa [← List.append_assoc, ← List.reverse_append, List.take_append_drop]
    rcases hstep with ⟨hc, rfl, htokens⟩ | ⟨hnone, hsame⟩
    · rw [htokens]
      cases a with
      | nil =>
        have hlen : numberLength digit (d :: t' ++ b) = (d :: t').length := by
          rw [numberLength_append hdigits, numberLength_eq_zero.mpr hright, Nat.add_zero]
        refine List.mem_cons.mpr (Or.inl ?_)
        rw [List.nil_append, hlen, List.take_left]
      | cons e a =>
        refine List.mem_cons_of_mem _ (hlater (not_lt.mp fun hlt => ?_))
        exact not_closed_of_numberLength (by simpa [onDigit,
          (List.cons.inj hs).1] using hc) hlt hleft
    · refine (hsame _ hdigits).mpr (hlater (not_lt.mp fun hlt => ?_))
      have hmem : d ∈ (a ++ (d :: t' ++ b)).take k := by
        rw [List.take_append, List.mem_append]
        right
        rw [List.cons_append, List.take_cons (by omega)]
        exact List.mem_cons_self
      simp [hnone d hmem] at hdigits

end Scan

lemma isolatedRun_iff {digit : CodePoint → Bool} (hd : DigitClass digit) {text run : PyStr} :
    IsolatedRun digit text run ↔ run ∈ leakedNumberTokens digit text ∧
    ∀ c ∈ run, digit c = true := by
  rw [leakedNumberTokens, List.mem_dedup]
  constructor
  · rintro ⟨u, v, rfl, hne, hdigits, hu, hv⟩
    rw [List.append_assoc]
    exact ⟨mem_tokens_of_isolated hd (ready_nil _) hne hdigits (by simpa using hu) hv, hdigits⟩
  · rintro ⟨hmem, hdigits⟩
    obtain ⟨u, v, hsplit, hne, hu, hv⟩ := isolated_of_mem_tokens hd (ready_nil text) hmem hdigits
    exact ⟨u, v, hsplit, hne, hdigits, by simpa using hu, hv⟩

lemma violatesRedLine_eq_nil {digit : CodePoint → Bool} {p what : PyStr} :
    violatesRedLine digit p what = [] ↔
      p = [] ∨ ∀ t ∈ leakedNumberTokens digit what, t ≠ [] → ¬t <:+: p := by
  rw [violatesRedLine]
  split_ifs with hp
  · simp [hp]
  · rw [← List.length_eq_zero_iff, List.length_insertionSort,
      List.length_eq_zero_iff, List.filter_eq_nil_iff]
    simp [hp, contains_iff]

lemma not_infix_of_clean {digit : CodePoint → Bool} (hd : DigitClass digit)
    {p what run r : PyStr} (hp : p ≠ [])
    (h : violatesRedLine digit p what = []) (hr : IsolatedRun digit what r)
    (hrun : r <:+: run) : ¬run <:+: p := by
  intro hwithin
  have hclean := (violatesRedLine_eq_nil.mp h).resolve_left hp
  obtain ⟨u, v, -, hne, -⟩ := id hr
  exact hclean r ((isolatedRun_iff hd).mp hr).1 hne (hrun.trans hwithin)

lemma strip_of_digits {digit : CodePoint → Bool} (hd : DigitClass digit) {s : PyStr}
    (hs : ∀ c ∈ s, digit c = true) :
    strip s = s := by
  have hno : ∀ c ∈ s, isSpace c = false := fun c hc => hd.notSpace c (hs c hc)
  have hl : lstrip s = s := by
    cases s with
    | nil => rfl
    | cons c s => exact List.dropWhile_cons_of_neg (by simp [hno c (by simp)])
  have hr : rstrip s = s := by
    rw [rstrip, List.rdropWhile_eq_self_iff]
    intro hne
    simp [hno _ (List.getLast_mem hne)]
  rw [strip, hl, hr]

lemma matchAt_braces (isWord : CodePoint → Bool) (mid : PyStr) :
    (matchAt isWord braces [] (cp '{' :: (mid ++ [cp '}']))).head? =
      some (cp '}' :: (mid.reverse ++ [cp '{']), []) := by
  have hlengths : runLengths 0 none (mid.length + 1) =
      (mid.length + 1) :: mid.length :: (List.range mid.length).reverse := by
    simp [runLengths, List.range_succ]
  have hall : (mid ++ [cp '}']).takeWhile (fun _ => true) = mid ++ [cp '}'] :=
    List.takeWhile_eq_self_iff.mpr (by simp)
  simp [braces, Regex.all, matchAt, hall, hlengths]

lemma searchText_braces (isWord : CodePoint → Bool) (mid : PyStr) :
    searchText isWord braces (cp '{' :: (mid ++ [cp '}'])) =
      some (cp '{' :: (mid ++ [cp '}'])) := by
  rw [searchText, searchFrom, matchAt_braces]
  simp

/-- The answer that gives a text as the general principle. -/
def generalAnswer (text : PyStr) : PyStr := (Json.obj [(py "general", .str text)]).dumps

lemma extractJson_generalAnswer (env : Env) (text : PyStr) :
    extractJson env (generalAnswer text) = .obj [(py "general", .str text)] := by
  have hwf : (Json.obj [(py "general", .str text)]).wf = true := by
    simp [Json.wf, Json.wfPairs, keys]
  have hcost : (Json.obj [(py "general", .str text)]).cost ≤ parseFuel (generalAnswer text) := by
    have hlen : 1 ≤ (generalAnswer text).length := by simp [generalAnswer, Json.dumps]
    simp only [Json.cost, Json.costPairs, parseFuel]
    omega
  have hloads : loads (generalAnswer text) = some (.obj [(py "general", .str text)]) :=
    loads_dumps hwf hcost
  have hshape : ∃ mid, generalAnswer text = cp '{' :: (mid ++ [cp '}']) := ⟨_, rfl⟩
  obtain ⟨mid, hmid⟩ := hshape
  rw [extractJson, hmid, searchText_braces, ← hmid, Option.bind_some, hloads]
  rfl

lemma distillOne_generalAnswer (env : Env) (what text : PyStr) (htext : text ≠ [])
    (hstrip : strip text = text) :
    ∃ d, distillOne env what (generalAnswer text) = .ok d ∧
      d.general = if violatesRedLine env.isDecimal text what = [] then text else [] := by
  have hget : getNone [(py "general", Json.str text)] (py "general") = .str text := by
    simp [getNone, get?_cons]
  have hor : strippedOrEmpty (.str text) = .ok text := by
    cases text with
    | nil => exact absurd rfl htext
    | cons c text => exact congrArg Except.ok hstrip
  rw [distillOne, extractJson_generalAnswer]
  simp only [asDict, bind, Except.bind, hget, hor]
  exact ⟨_, rfl, rfl⟩

lemma MaximalRun.digits {digit : CodePoint → Bool} {text run : PyStr}
    (h : MaximalRun digit text run) :
    run ≠ [] ∧ ∀ c ∈ run, digit c = true := by
  obtain ⟨u, v, -, hne, hdigits, -⟩ := h
  exact ⟨hne, hdigits⟩

lemma distillOne_clean {env : Env} {what raw : PyStr} {d : Distilled}
    (h : distillOne env what raw = .ok d) :
    (d.general ≠ [] → violatesRedLine env.isDecimal d.general what = []) ∧
      ∀ p ∈ d.domain, violatesRedLine env.isDecimal p what = [] := by
  obtain ⟨obj, -, h⟩ := bind_eq_ok.mp h
  obtain ⟨general, -, h⟩ := bind_eq_ok.mp h
  obtain rfl := Except.ok.inj h
  constructor
  · dsimp only
    split_ifs with hleak
    · exact fun _ => hleak
    · exact fun hne => absurd rfl hne
  · dsimp only
    split_ifs with hleak
    · intro p hp
      rwa [hp] at hleak
    · simp

/-- No principle of any answer repeats a longest run of digits of the failure exactly when each of
these runs contains one that no joint ties to another. -/
theorem distillOne_no_run_iff (env : Env) (hd : DigitClass env.isDecimal) (what : PyStr) :
    (∀ raw d, distillOne env what raw = .ok d → ∀ run, MaximalRun env.isDecimal what run →
        contains run d.general = false ∧ ∀ p ∈ d.domain, contains run p = false) ↔
      ∀ run, MaximalRun env.isDecimal what run → ∃ r,
        IsolatedRun env.isDecimal what r ∧ r <:+: run := by
  constructor
  · intro h run hrun
    obtain ⟨hne, hdigits⟩ := hrun.digits
    obtain ⟨d, hd', hgeneral⟩ :=
      distillOne_generalAnswer env what run hne (strip_of_digits hd hdigits)
    have hleak : violatesRedLine env.isDecimal run what ≠ [] := by
      intro hclean
      rw [if_pos hclean] at hgeneral
      have hno := (h _ d hd' run hrun).1
      rw [hgeneral, (contains_iff run run).mpr (List.infix_refl run)] at hno
      simp at hno
    rw [Ne, violatesRedLine_eq_nil, not_or] at hleak
    obtain ⟨t, ht, -, hwithin⟩ : ∃ t ∈ leakedNumberTokens env.isDecimal what,
      t ≠ [] ∧ t <:+: run := by
      simpa using hleak.2
    exact ⟨t, (isolatedRun_iff hd).mpr ⟨ht, fun c hc => hdigits c (hwithin.subset hc)⟩, hwithin⟩
  · intro h raw d hok run hrun
    obtain ⟨r, hr, hwithin⟩ := h run hrun
    obtain ⟨hgeneral, hdomain⟩ := distillOne_clean hok
    have hno : ∀ p, (p ≠ [] → violatesRedLine env.isDecimal p what = []) →
        contains run p = false := by
      intro p hp
      rw [← Bool.not_eq_true, contains_iff]
      intro hin
      have hne : p ≠ [] := by
        rintro rfl
        exact hrun.digits.1 (List.infix_nil.mp hin)
      exact not_infix_of_clean hd hne (hp hne) hr hwithin hin
    exact ⟨hno _ hgeneral, fun p hp => hno p fun _ => hdomain p hp⟩

lemma digitClass_ascii : DigitClass asciiEnv.isDecimal where
  notSpace c hc := by
    simp only [Env.isDecimal, asciiEnv, Option.isSome_ite] at hc
    simp only [isSpace, Bool.or_eq_false_iff, Bool.and_eq_false_iff,
      decide_eq_false_iff_not, beq_eq_false_iff_ne]
    omega
  notJoint c hc := by
    have hall : ((py ".-/→>~").all fun c => !asciiEnv.isDecimal c) = true := by decide +kernel
    by_contra hj
    have hno := List.all_eq_true.mp hall c (by simpa [isJoint] using hj)
    simp [hc] at hno
  notNumeral c hc := by
    have hall : ((py "零一二三四五六七八九十百千万亿").all fun c => !asciiEnv.isDecimal c) = true := by
      decide +kernel
    by_contra hj
    have hno := List.all_eq_true.mp hall c (by simpa [isNumeral] using hj)
    simp [hc] at hno

/-- One side of the arrow is not a token, and passes. -/
theorem arrow_side_survives : MaximalRun asciiEnv.isDecimal (py "counts 276→318") (py "276") ∧
      ∃ d, distillOne asciiEnv (py "counts 276→318")
        (generalAnswer (py "check 276 twice")) = .ok d ∧
        contains (py "276") d.general = true := by
  refine ⟨⟨py "counts ", py "→318", by decide +kernel, by decide,
    ?_, by decide +kernel, by decide +kernel⟩, ok_of_toOption (by decide +kernel)⟩
  have hall : ((py "276").all fun c => asciiEnv.isDecimal c) = true := by decide +kernel
  exact fun c hc => List.all_eq_true.mp hall c hc

theorem distillOne_no_run_iff_ascii :
    DigitClass asciiEnv.isDecimal ∧
    ∀ raw d, distillOne asciiEnv (py "port 80, 3 times") raw = .ok d →
      ∀ run, MaximalRun asciiEnv.isDecimal (py "port 80, 3 times") run →
        contains run d.general = false ∧ ∀ p ∈ d.domain, contains run p = false := by
  -- every cut of the text into three parts
  have hall : ∀ i < 17, ∀ j < 17,
      onDigit asciiEnv.isDecimal ((py "port 80, 3 times").take i).reverse = false ∧
      ((py "port 80, 3 times").drop i).take j ≠ [] ∧
      (((py "port 80, 3 times").drop i).take j).all asciiEnv.isDecimal = true ∧
      onDigit asciiEnv.isDecimal (((py "port 80, 3 times").drop i).drop j) = false →
      onJoint asciiEnv.isDecimal ((py "port 80, 3 times").take i).reverse = false ∧
        onJoint asciiEnv.isDecimal (((py "port 80, 3 times").drop i).drop j) = false := by
    decide +kernel
  refine ⟨digitClass_ascii, (distillOne_no_run_iff asciiEnv digitClass_ascii _).mpr ?_⟩
  rintro run ⟨u, v, htext, hne, hdigits, hu, hv⟩
  have hlength : u.length + run.length + v.length = 16 := by
    rw [← List.length_append, ← List.length_append, ← htext]
    rfl
  have hclosed := hall u.length (by omega) run.length (by omega)
  rw [htext, List.append_assoc, List.take_left, List.drop_left, List.take_left,
    List.drop_left] at hclosed
  obtain ⟨hju, hjv⟩ := hclosed ⟨hu, hne, List.all_eq_true.mpr hdigits, hv⟩
  exact ⟨run, ⟨u, v, htext, hne, hdigits, ⟨hu, hju⟩, hv, hjv⟩, List.infix_rfl⟩

end AgentTrajectory.PrincipleDistill
