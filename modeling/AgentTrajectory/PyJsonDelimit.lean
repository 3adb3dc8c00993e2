import AgentTrajectory.PyJsonRoundtrip

/-! A parsed JSON value delimits itself: the parser reads the same value whatever follows it.
Blanks around a text do not change what it loads, and a text cut within one of its strings
does not load. -/
namespace AgentTrajectory.PyJson
open PyText PyDict Json

variable {c : CodePoint} {s r : PyStr} {v : Json}

/-- Starts and ends with a character that `strip` keeps. -/
def solid (u : PyStr) : Bool :=
  (u.head?.any fun c => !isSpace c) && u.getLast?.any fun c => !isSpace c

lemma isSpace_of_isJsonSpace (h : isJsonSpace c = true) : isSpace c = true := by
  simp only [isJsonSpace, Bool.or_eq_true, beq_iff_eq] at h
  rcases h with ((rfl | rfl) | rfl) | rfl <;> decide

lemma isSpace_of_isNumberChar (h : isNumberChar c = true) : isSpace c = false := by
  simp only [isNumberChar, isDigit, Bool.or_eq_true, Bool.and_eq_true, decide_eq_true_eq,
    beq_iff_eq] at h
  rcases h with ((((hd | rfl) | rfl) | rfl) | rfl) | rfl
  · simp only [isSpace, Bool.or_eq_false_iff, Bool.and_eq_false_iff, decide_eq_false_iff_not,
      beq_eq_false_iff_ne]
    omega
  all_goals decide

lemma isNumberChar_of_isJsonSpace (h : isJsonSpace c = true) : isNumberChar c = false := by
  by_contra hn
  have hspace := isSpace_of_isNumberChar (by simpa using hn)
  rw [isSpace_of_isJsonSpace h] at hspace
  exact absurd hspace (by decide)

lemma solid_cons_concat {a c : CodePoint} (ha : isSpace a = false) (hc : isSpace c = false)
    (t : PyStr) : solid (a :: t ++ [c]) = true := by
  rw [solid, List.getLast?_concat]
  simp [ha, hc]

lemma skipWs_split (s : PyStr) : ∃ ws, s = ws ++ skipWs s ∧ ∀ c ∈ ws, isJsonSpace c = true :=
  ⟨s.takeWhile isJsonSpace, List.takeWhile_append_dropWhile.symm, fun _ hc =>
    List.mem_takeWhile_imp hc⟩

lemma skipWs_append {ws : PyStr} (h : ∀ c ∈ ws, isJsonSpace c = true) (s : PyStr) :
    skipWs (ws ++ s) = skipWs s := by
  induction ws with
  | nil => rfl
  | cons c ws ih =>
    rw [List.cons_append, skipWs, List.dropWhile_cons_of_pos (h c (by simp)), ← skipWs,
      ih fun d hd => h d (by simp [hd])]

lemma skipWs_head {s t : PyStr} (h : skipWs s = c :: t) : isJsonSpace c = false := by
  induction s with
  | nil => simp [skipWs] at h
  | cons a s ih =>
    by_cases ha : isJsonSpace a = true
    · rw [skipWs, List.dropWhile_cons_of_pos ha] at h
      exact ih h
    · rw [skipWs, List.dropWhile_cons_of_neg ha] at h
      rw [← (List.cons.inj h).1]
      simpa using ha

lemma skipWs_eq_nil {s : PyStr} (h : skipWs s = []) : ∀ c ∈ s, isJsonSpace c = true :=
  List.dropWhile_eq_nil_iff.mp h

/-- What the parser takes outside of strings; no `p` is among it. -/
def isPlain (c : CodePoint) : Bool :=
  isJsonSpace c || (32 < c.val && c.val < 127 && c != cp '"' && c != cp '\\' && c != cp 'p')

inductive Lex
  | out
  | str
  | esc
  deriving DecidableEq

def lexStep : Lex → CodePoint → Option Lex
  | .out, c => if c = cp '"' then some .str else if isPlain c then some .out else none
  | .str, c => some (if c = cp '"' then .out else if c = cp '\\' then .esc else .str)
  | .esc, c => if c = cp 'u' ∨ (unescape c).isSome then some .str else none

def lex (st : Lex) (s : PyStr) : Option Lex := s.foldlM lexStep st

lemma lex_cons (st : Lex) (c : CodePoint) (s : PyStr) :
    lex st (c :: s) = (lexStep st c).bind (lex · s) :=
  List.foldlM_cons ..

lemma lex_append (st : Lex) (s t : PyStr) : lex st (s ++ t) = (lex st s).bind (lex · t) :=
  List.foldlM_append ..

lemma lex_str (hq : c ≠ cp '"') (hb : c ≠ cp '\\') (s : PyStr) :
    lex .str (c :: s) = lex .str s := by
  rw [lex_cons, lexStep, if_neg hq, if_neg hb]
  rfl

lemma lex_plain (h : isPlain c = true) (s : PyStr) :
    lex .out (c :: s) = lex .out s ∧ lex .str (c :: s) = lex .str s := by
  have hq : c ≠ cp '"' := by rintro rfl; exact absurd h (by decide)
  have hb : c ≠ cp '\\' := by rintro rfl; exact absurd h (by decide)
  refine ⟨?_, lex_str hq hb s⟩
  rw [lex_cons, lexStep, if_neg hq, if_pos h]
  rfl

lemma lex_hex {n : ℕ} (h : hexValue c = some n) (s : PyStr) :
    lex .str (c :: s) = lex .str s := by
  refine lex_str ?_ ?_ s <;> rintro rfl
  · rw [show hexValue (cp '"') = none by decide] at h
    exact absurd h (by simp)
  · rw [show hexValue (cp '\\') = none by decide] at h
    exact absurd h (by simp)

lemma lex_backslash (h : c = cp 'u' ∨ (unescape c).isSome) (s : PyStr) :
    lex .str (cp '\\' :: c :: s) = lex .str s := by
  rw [lex_cons, lexStep, if_neg (by decide), if_pos rfl, Option.bind_some,
    lex_cons, lexStep, if_pos h]
  rfl

lemma lex_escape {a b d f : CodePoint} {w x y z : ℕ} (ha : hexValue a = some w)
    (hb : hexValue b = some x)
    (hd : hexValue d = some y) (hf : hexValue f = some z) :
    lex .str [cp '\\', cp 'u', a, b, d, f] = some .str := by
  rw [lex_backslash (.inl rfl), lex_hex ha, lex_hex hb, lex_hex hd, lex_hex hf]
  rfl

/-- The scanner closes the string at the quote before `r` and never looks further. -/
def ReadsString (p : Option ℕ) (s x r : PyStr) : Prop :=
  ∃ u, s = u ++ cp '"' :: r ∧ lex .str u = some .str ∧
    ∀ r', scanString p (u ++ cp '"' :: r') = some (x, r')

lemma ReadsString.step {p p' : Option ℕ} (pre : PyStr) {s x r : PyStr} (f : PyStr → PyStr)
    (hlex : lex .str pre = some .str)
    (hstep : ∀ t, scanString p (pre ++ t) = (scanString p' t).map fun q => (f q.1, q.2))
    (ih : ∀ {y}, scanString p' s = some (y, r) → ReadsString p' s y r)
    (h : ((scanString p' s).map fun q => (f q.1, q.2)) = some (x, r)) :
    ReadsString p (pre ++ s) x r := by
  obtain ⟨⟨y, r₁⟩, hy, hq⟩ := Option.map_eq_some_iff.mp h
  obtain ⟨rfl, rfl⟩ := Prod.mk.inj hq
  obtain ⟨u, rfl, hstr, hu⟩ := ih hy
  exact ⟨pre ++ u, by simp, by rw [lex_append, hlex]; exact hstr,
    fun r' => by rw [List.append_assoc, hstep, hu]; rfl⟩

lemma scanString_escape {p : Option ℕ} (a b d f : CodePoint) {w x y z : ℕ}
    (ha : hexValue a = some w)
    (hb : hexValue b = some x) (hd : hexValue d = some y) (hf : hexValue f = some z) (t : PyStr) :
    scanString p ([cp '\\', cp 'u', a, b, d, f] ++ t) =
      if isLow (((w * 16 + x) * 16 + y) * 16 + z) && p.isSome then
        (scanString none t).map fun q =>
          (joinSurrogates (p.getD 0) (((w * 16 + x) * 16 + y) * 16 + z) :: q.1, q.2)
      else if isHigh (((w * 16 + x) * 16 + y) * 16 + z) then
        (scanString (some (((w * 16 + x) * 16 + y) * 16 + z)) t).map fun q =>
          ((p.map fun h => (Fin.ofNat _ h : CodePoint)).toList ++ q.1, q.2)
      else (scanString none t).map fun q =>
        ((p.map fun h => (Fin.ofNat _ h : CodePoint)).toList ++
          Fin.ofNat _ (((w * 16 + x) * 16 + y) * 16 + z) :: q.1, q.2) := by
  simp only [List.cons_append, List.nil_append, scanString, ha, hb, hd, hf,
    show ¬ cp '\\' = cp '"' by decide, if_false, if_true]

lemma scanString_quote (p : Option ℕ) (t : PyStr) :
    scanString p (cp '"' :: t) = some ((p.map fun h => (Fin.ofNat _ h : CodePoint)).toList, t) := by
  rw [scanString.eq_def]
  simp only [if_true]

lemma scanString_reads {p : Option ℕ} {s x r : PyStr} (h : scanString p s = some (x, r)) :
    ReadsString p s x r := by
  fun_induction scanString p s generalizing x with
  | case2 p s =>
    obtain ⟨rfl, rfl⟩ := Prod.mk.inj (Option.some.inj h)
    exact ⟨[], rfl, rfl, scanString_quote p⟩
  | case4 p a b d f t w x y z hz hy hx hw u hlow =>
    rename_i ih
    exact .step [cp '\\', cp 'u', a, b, d, f] (fun q => joinSurrogates (p.getD 0) u :: q)
      (lex_escape hw hx hy hz)
      (fun t => (scanString_escape a b d f hw hx hy hz t).trans (if_pos hlow)) ih h
  | case5 p flush a b d f t w x y z hz hy hx hw u hlow hhigh =>
    rename_i ih
    exact .step [cp '\\', cp 'u', a, b, d, f] (fun q => flush ++ q) (lex_escape hw hx hy hz)
      (fun t => (scanString_escape a b d f hw hx hy hz t).trans
        ((if_neg hlow).trans (if_pos hhigh))) ih h
  | case6 p flush a b d f t w x y z hz hy hx hw u hlow hhigh =>
    rename_i ih
    exact .step [cp '\\', cp 'u', a, b, d, f] (fun q => flush ++ Fin.ofNat _ u :: q)
      (lex_escape hw hx hy hz)
      (fun t => (scanString_escape a b d f hw hx hy hz t).trans
        ((if_neg hlow).trans (if_neg hhigh))) ih h
  | case9 p flush e t he c hc hq =>
    rename_i ih
    refine .step [cp '\\', e] (fun q => flush ++ c :: q) (lex_backslash (.inr (by rw [hc]; rfl)) [])
      (fun t => ?_) ih h
    rw [List.cons_append, scanString.eq_def]
    simp only [List.cons_append, List.nil_append, hq, he, hc, if_false, if_true]
    rfl
  | case12 p c t flush hq hb hlow =>
    rename_i ih
    refine .step [c] (fun q => flush ++ c :: q) (lex_str hq hb []) (fun t => ?_) ih h
    rw [List.cons_append, scanString.eq_def]
    simp only [List.nil_append, hq, hb, hlow, if_false]
    rfl
  | _ => simp at h

inductive Tokens : PyStr → List PyStr → Prop
  | nil : Tokens [] []
  | plain {c u xs} : isPlain c = true → Tokens u xs → Tokens (c :: u) xs
  | string {w x u xs} : (∀ r, scanString none (w ++ cp '"' :: r) = some (x, r)) → Tokens u xs →
      Tokens (cp '"' :: (w ++ cp '"' :: u)) (x :: xs)

lemma Tokens.append {u v : PyStr} {xs ys : List PyStr} (hu : Tokens u xs) (hv : Tokens v ys) :
    Tokens (u ++ v) (xs ++ ys) := by
  induction hu with
  | nil => exact hv
  | plain hc _ ih => exact .plain hc ih
  | string hw _ ih =>
    rw [List.cons_append, List.append_assoc, List.cons_append]
    exact .string hw ih

lemma tokens_plain {u : PyStr} (h : ∀ c ∈ u, isPlain c = true) : Tokens u [] := by
  induction u with
  | nil => exact .nil
  | cons c u ih => exact .plain (h c (by simp)) (ih fun d hd => h d (by simp [hd]))

lemma tokens_blanks {ws : PyStr} (h : ∀ c ∈ ws, isJsonSpace c = true) : Tokens ws [] :=
  tokens_plain fun c hc => by rw [isPlain, h c hc, Bool.true_or]

lemma isPlain_of_isNumberChar (h : isNumberChar c = true) : isPlain c = true := by
  simp only [isNumberChar, isDigit, Bool.or_eq_true, Bool.and_eq_true, decide_eq_true_eq,
    beq_iff_eq] at h
  rcases h with ((((hd | rfl) | rfl) | rfl) | rfl) | rfl
  · have hne (d : CodePoint) (h : ¬ (48 ≤ d.val ∧ d.val ≤ 57)) : c ≠ d := by
      rintro rfl
      exact h hd
    simp only [isPlain, Bool.or_eq_true, Bool.and_eq_true, decide_eq_true_eq, bne_iff_ne]
    exact .inr ⟨⟨⟨by omega, hne _ (by decide)⟩, hne _ (by decide)⟩, hne _ (by decide)⟩
  all_goals decide

def atomStart (u : PyStr) : Bool :=
  u.head?.all fun c => c != cp '"' && c != cp '{' && c != cp '['

def ReadsAtom (s : PyStr) (v : Json) (r : PyStr) : Prop :=
  ∃ u, s = u ++ r ∧ solid u = true ∧ atomStart u = true ∧ Tokens u [] ∧
    ∀ r', Follow r' → scanAtom (u ++ r') = some (v, r')

lemma readsAtom_word {s w r : PyStr} {k : ℕ} (hk : w.length = k)
    (hs : startswith s w = true) (h : some (v, s.drop k) = some (v, r)) (hsolid : solid w = true)
    (hstart : atomStart w = true) (hplain : w.all isPlain = true)
    (hscan : ∀ r', scanAtom (w ++ r') = some (v, r')) : ReadsAtom s v r := by
  obtain ⟨t, rfl⟩ := (startswith_iff s w).mp hs
  rw [← hk, List.drop_left] at h
  obtain rfl := (Prod.mk.inj (Option.some.inj h)).2
  exact ⟨w, rfl, hsolid, hstart, tokens_plain (List.all_eq_true.mp hplain), fun r' _ => hscan r'⟩

lemma readsAtom_number
    (h : ((numberOf (s.takeWhile isNumberChar)).map fun v => (v, s.dropWhile isNumberChar)) =
      some (v, r)) : ReadsAtom s v r := by
  obtain ⟨x, hx, hq⟩ := Option.map_eq_some_iff.mp h
  obtain ⟨rfl, rfl⟩ := Prod.mk.inj hq
  generalize htok : s.takeWhile isNumberChar = tok at hx
  have hchars : ∀ d ∈ tok, isNumberChar d = true := fun d hd => by
    rw [← htok] at hd
    exact List.mem_takeWhile_imp hd
  have hne : tok ≠ [] := by
    rintro rfl
    rw [show numberOf [] = none by decide] at hx
    exact absurd hx (by simp)
  refine ⟨tok, by rw [← htok, List.takeWhile_append_dropWhile], ?_, ?_,
    tokens_plain fun d hd => isPlain_of_isNumberChar (hchars d hd),
    fun r' hr' => scanAtom_number hne hchars hr' hx⟩
  · have hfirst := isSpace_of_isNumberChar (hchars _ (List.head_mem hne))
    have hlast := isSpace_of_isNumberChar (hchars _ (List.getLast_mem hne))
    simp [solid, List.head?_eq_some_head hne, List.getLast?_eq_some_getLast hne, hfirst, hlast]
  · obtain ⟨c, t, rfl, hq, ho, ha, -⟩ := number_head hne hchars
    simp [atomStart, hq, ho, ha]

lemma scanAtom_reads (h : scanAtom s = some (v, r)) : ReadsAtom s v r := by
  rw [scanAtom] at h
  split_ifs at h with h1 h2 h3 h4 h5 h6
  · obtain rfl := (Prod.mk.inj (Option.some.inj h)).1
    exact readsAtom_word rfl h1 h (by decide) (by decide) (by decide) fun r' => rfl
  · obtain rfl := (Prod.mk.inj (Option.some.inj h)).1
    exact readsAtom_word rfl h2 h (by decide) (by decide) (by decide) fun r' => rfl
  · obtain rfl := (Prod.mk.inj (Option.some.inj h)).1
    exact readsAtom_word rfl h3 h (by decide) (by decide) (by decide) fun r' => rfl
  · obtain rfl := (Prod.mk.inj (Option.some.inj h)).1
    exact readsAtom_word rfl h4 h (by decide) (by decide) (by decide) fun r' => rfl
  · obtain rfl := (Prod.mk.inj (Option.some.inj h)).1
    exact readsAtom_word rfl h5 h (by decide) (by decide) (by decide) fun r' => rfl
  · obtain rfl := (Prod.mk.inj (Option.some.inj h)).1
    exact readsAtom_word rfl h6 h (by decide) (by decide) (by decide) fun r' => rfl
  · exact readsAtom_number h

def keysOf : Json → List PyStr
  | .obj d => keys d
  | _ => []

lemma scanAtom_ne_obj {kvs : List (PyStr × Json)} : scanAtom s ≠ some (.obj kvs, r) := by
  rw [scanAtom]
  split_ifs
  case neg =>
    rw [Ne, Option.map_eq_some_iff]
    rintro ⟨v, hv, hq⟩
    obtain ⟨rfl, -⟩ := Prod.mk.inj hq
    simp only [numberOf] at hv
    split_ifs at hv <;> simp at hv
  all_goals simp

lemma scanAtom_keys (h : scanAtom s = some (v, r)) : keysOf v ⊆ [] := by
  cases v with
  | obj d => exact absurd h scanAtom_ne_obj
  | _ => exact List.nil_subset _

section Blanks
variable {ws u : PyStr} {c : CodePoint}

lemma skipWs_solid (h : solid u = true) (t : PyStr) : skipWs (u ++ t) = u ++ t := by
  cases u with
  | nil => simp [solid] at h
  | cons a u =>
    have ha : isSpace a = false := by
      simp only [solid, Bool.and_eq_true, List.head?_cons, Option.any_some, Bool.not_eq_true'] at h
      exact h.1
    refine skipWs_cons ?_ (u ++ t)
    by_contra hj
    rw [isSpace_of_isJsonSpace (by simpa using hj)] at ha
    exact absurd ha (by decide)

lemma follow_blanks (hws : ∀ d ∈ ws, isJsonSpace d = true)
    (hc : isNumberChar c = false) (t : PyStr) :
    Follow (ws ++ c :: t) := by
  cases ws with
  | nil => exact follow_cons hc t
  | cons d ws => exact follow_cons (isNumberChar_of_isJsonSpace (hws d (by simp))) _

lemma skipWs_reads (h : skipWs s = u ++ c :: r) :
    ∃ ws, s = ws ++ (u ++ c :: r) ∧ Tokens ws [] ∧
      ∀ r', skipWs (ws ++ (u ++ c :: r')) = u ++ c :: r' := by
  obtain ⟨ws, hs, hws⟩ := skipWs_split s
  refine ⟨ws, by rw [← h]; exact hs, tokens_blanks hws, fun r' => ?_⟩
  rw [skipWs_append hws]
  cases u with
  | nil => exact skipWs_cons (skipWs_head h) r'
  | cons a u => exact skipWs_cons (skipWs_head h) _

lemma skipWs_eq_cons {s t : PyStr} (h : skipWs s = c :: t) :
    ∃ ws, s = ws ++ c :: t ∧ (∀ d ∈ ws, isJsonSpace d = true) ∧
      ∀ t', skipWs (ws ++ c :: t') = c :: t' := by
  obtain ⟨ws, hs, hws⟩ := skipWs_split s
  rw [h] at hs
  exact ⟨ws, hs, hws, fun t' => by rw [skipWs_append hws, skipWs_cons (skipWs_head h)]⟩

end Blanks

/-- `v` is read from a beginning of `s`, and from that beginning whatever allowed text
follows it; two steps for each of its characters are enough. -/
def ReadsValue (s : PyStr) (v : Json) (r : PyStr) : Prop :=
  ∃ u xs, s = u ++ r ∧ solid u = true ∧ Tokens u xs ∧ keysOf v ⊆ xs ∧
    ∀ m, 2 * u.length ≤ m → ∀ r', Follow r' → parseValue m (u ++ r') = some (v, r')

def ReadsBody {α : Type*} (parse : ℕ → PyStr → Option (α × PyStr)) (names : α → List PyStr)
    (close : CodePoint) (s : PyStr) (x : α) (r : PyStr) : Prop :=
  ∃ u xs, s = u ++ close :: r ∧ Tokens u xs ∧ names x ⊆ xs ∧
    ∀ m, 2 * u.length + 1 ≤ m → ∀ r', parse m (u ++ close :: r') = some (x, r')

lemma parseKey_reads {s k t : PyStr} (h : parseKey s = some (k, t)) :
    ∃ u, s = u ++ t ∧ Tokens u [k] ∧ ∀ t', skipWs t' = t' → parseKey (u ++ t') = some (k, t') := by
  cases s with
  | nil => simp [parseKey] at h
  | cons q s =>
    rw [parseKey] at h
    split_ifs at h with hq
    subst hq
    cases hs : scanString none s with
    | none => simp [hs] at h
    | some p =>
      obtain ⟨x, r⟩ := p
      simp only [hs] at h
      cases hr : skipWs r with
      | nil => simp [hr] at h
      | cons c t₀ =>
        simp only [hr] at h
        split_ifs at h with hc
        subst hc
        obtain ⟨rfl, rfl⟩ := Prod.mk.inj (Option.some.inj h)
        obtain ⟨u, rfl, -, hu⟩ := scanString_reads hs
        obtain ⟨ws, rfl, hblank, hws⟩ := skipWs_eq_cons hr
        obtain ⟨ws', ht₀, hws'⟩ := skipWs_split t₀
        refine ⟨cp '"' :: (u ++ cp '"' :: (ws ++ cp ':' :: ws')), ?_,
          .string hu ((tokens_blanks hblank).append (.plain (by decide) (tokens_blanks hws'))),
          fun t' ht' => ?_⟩
        · nth_rewrite 1 [ht₀]
          simp
        · have hscan := hu (ws ++ cp ':' :: (ws' ++ t'))
          simp only [List.cons_append, List.append_assoc, parseKey, if_true, hscan, hws]
          rw [skipWs_append hws', ht']

section Step
variable {n : ℕ}
  (ihv : ∀ {s v r}, parseValue n s = some (v, r) → ReadsValue s v r)
  (ihi : ∀ {s xs r}, parseItems n s = some (xs, r) →
    ReadsBody parseItems (fun _ => []) (cp ']') s xs r)
  (ihp : ∀ {s kvs r}, parsePairs n s = some (kvs, r) → ReadsBody parsePairs keys (cp '}') s kvs r)
include ihv

include ihi in
lemma parseItems_reads_succ {xs : List Json} (h : parseItems (n + 1) s = some (xs, r)) :
    ReadsBody parseItems (fun _ => []) (cp ']') s xs r := by
  rw [parseItems] at h
  cases hv : parseValue n s with
  | none => simp [hv] at h
  | some p =>
    obtain ⟨v, r₁⟩ := p
    obtain ⟨u, xs₁, rfl, -, htok, -, hu⟩ := ihv hv
    simp only [hv] at h
    cases hr : skipWs r₁ with
    | nil => simp [hr] at h
    | cons c t =>
      obtain ⟨ws, rfl, hblank, hws⟩ := skipWs_eq_cons hr
      simp only [hr] at h
      split_ifs at h with h1 h2
      · obtain ⟨⟨ys, r₂⟩, hy, hq⟩ := Option.map_eq_some_iff.mp h
        obtain ⟨rfl, rfl⟩ := Prod.mk.inj hq
        obtain ⟨u₂, xs₂, ht, htok₂, -, hu₂⟩ := ihi hy
        obtain ⟨ws₂, rfl, hblank₂, hws₂⟩ := skipWs_reads ht
        subst h1
        refine ⟨u ++ (ws ++ cp ',' :: (ws₂ ++ u₂)), _, by simp,
          htok.append ((tokens_blanks hblank).append (.plain (by decide) (hblank₂.append htok₂))),
          List.nil_subset _, fun m hm r' => ?_⟩
        obtain ⟨m, rfl⟩ := Nat.exists_eq_add_one.mpr (Nat.lt_of_lt_of_le (by simp) hm)
        simp only [List.length_append, List.length_cons] at hm
        have hval := hu m (by omega) (ws ++ cp ',' :: (ws₂ ++ (u₂ ++ cp ']' :: r')))
          (follow_blanks hblank (by decide) _)
        simp only [List.append_assoc, List.cons_append, parseItems, hval, hws, hws₂,
          hu₂ m (by omega) r', if_true, Option.map_some]
      · obtain ⟨rfl, rfl⟩ := Prod.mk.inj (Option.some.inj h)
        subst h2
        refine ⟨u ++ ws, _, by simp, htok.append (tokens_blanks hblank), List.nil_subset _,
          fun m hm r' => ?_⟩
        obtain ⟨m, rfl⟩ := Nat.exists_eq_add_one.mpr (Nat.lt_of_lt_of_le (by simp) hm)
        rw [List.length_append] at hm
        have hval := hu m (by omega) (ws ++ cp ']' :: r') (follow_blanks hblank (by decide) _)
        simp only [List.append_assoc, parseItems, hval, hws, h1, if_false, if_true]

include ihp in
lemma parsePairs_reads_succ {kvs : List (PyStr × Json)}
    (h : parsePairs (n + 1) s = some (kvs, r)) : ReadsBody parsePairs keys (cp '}') s kvs r := by
  rw [parsePairs] at h
  cases hk : parseKey s with
  | none => simp [hk] at h
  | some p =>
    obtain ⟨k, s₁⟩ := p
    obtain ⟨uk, rfl, htokk, huk⟩ := parseKey_reads hk
    simp only [hk] at h
    cases hv : parseValue n s₁ with
    | none => simp [hv] at h
    | some p =>
      obtain ⟨v, r₁⟩ := p
      obtain ⟨u, xs₁, rfl, hsolid, htok, -, hu⟩ := ihv hv
      simp only [hv] at h
      cases hr : skipWs r₁ with
      | nil => simp [hr] at h
      | cons c t =>
        obtain ⟨ws, rfl, hblank, hws⟩ := skipWs_eq_cons hr
        simp only [hr] at h
        split_ifs at h with h1 h2
        · obtain ⟨⟨ys, r₂⟩, hy, hq⟩ := Option.map_eq_some_iff.mp h
          obtain ⟨rfl, rfl⟩ := Prod.mk.inj hq
          obtain ⟨u₂, xs₂, ht, htok₂, hkeys, hu₂⟩ := ihp hy
          obtain ⟨ws₂, rfl, hblank₂, hws₂⟩ := skipWs_reads ht
          subst h1
          refine ⟨uk ++ (u ++ (ws ++ cp ',' :: (ws₂ ++ u₂))), _, by simp, htokk.append (htok.append
            ((tokens_blanks hblank).append (.plain (by decide) (hblank₂.append htok₂)))),
            List.cons_subset_cons _ fun x hx => by simp [hkeys hx], fun m hm r' => ?_⟩
          obtain ⟨m, rfl⟩ := Nat.exists_eq_add_one.mpr (Nat.lt_of_lt_of_le (by simp) hm)
          simp only [List.length_append, List.length_cons] at hm
          have hkey := huk _ (skipWs_solid hsolid (ws ++ cp ',' :: (ws₂ ++ (u₂ ++ cp '}' :: r'))))
          have hval := hu m (by omega) (ws ++ cp ',' :: (ws₂ ++ (u₂ ++ cp '}' :: r')))
            (follow_blanks hblank (by decide) _)
          simp only [List.append_assoc, List.cons_append, parsePairs, hkey, hval, hws, hws₂,
            hu₂ m (by omega) r', if_true, Option.map_some]
        · obtain ⟨rfl, rfl⟩ := Prod.mk.inj (Option.some.inj h)
          subst h2
          refine ⟨uk ++ (u ++ ws), _, by simp, htokk.append (htok.append (tokens_blanks hblank)),
            by simp [keys], fun m hm r' => ?_⟩
          obtain ⟨m, rfl⟩ := Nat.exists_eq_add_one.mpr (Nat.lt_of_lt_of_le (by simp) hm)
          simp only [List.length_append] at hm
          have hkey := huk _ (skipWs_solid hsolid (ws ++ cp '}' :: r'))
          have hval := hu m (by omega) (ws ++ cp '}' :: r') (follow_blanks hblank (by decide) _)
          simp only [List.append_assoc, parsePairs, hkey, hval, hws, h1, if_false, if_true]

end Step

lemma parseBracket_reads_succ {α : Type*} {parse : ℕ → PyStr → Option (α × PyStr)}
    {names : α → List PyStr} {start close : CodePoint} (empty : Json) (wrap : α → Json)
    (hstart : isSpace start = false) (hclose : isSpace close = false)
    (hplain : isPlain start = true ∧ isPlain close = true)
    (hnames : keysOf empty = [] ∧ ∀ x, keysOf (wrap x) ⊆ names x)
    (heq : ∀ m s, parseValue (m + 1) (start :: s) =
      if (skipWs s).head? = some close then some (empty, (skipWs s).tail)
      else (parse m (skipWs s)).map fun p => (wrap p.1, p.2))
    {n : ℕ} (ih : ∀ {s x r}, parse n s = some (x, r) → ReadsBody parse names close s x r)
    (h : parseValue (n + 1) (start :: s) = some (v, r)) :
    ReadsValue (start :: s) v r := by
  rw [heq] at h
  split_ifs at h with hempty
  · obtain ⟨rfl, rfl⟩ := Prod.mk.inj (Option.some.inj h)
    cases hs : skipWs s with
    | nil => simp [hs] at hempty
    | cons c t =>
      obtain rfl : c = close := by simpa [hs] using hempty
      obtain ⟨ws, rfl, hblank, hws⟩ := skipWs_eq_cons hs
      refine ⟨start :: ws ++ [c], _, by simp, solid_cons_concat hstart hclose ws,
        (Tokens.plain hplain.1 (tokens_blanks hblank)).append (.plain hplain.2 .nil),
        by simp [hnames.1], fun m hm r' _ => ?_⟩
      obtain ⟨m, rfl⟩ := Nat.exists_eq_add_one.mpr (Nat.lt_of_lt_of_le (by simp) hm)
      simp only [List.length_append, List.length_cons, List.length_nil] at hm
      simp only [List.cons_append, List.append_assoc, List.nil_append, heq, hws, if_true,
        List.head?_cons, List.tail_cons]
  · obtain ⟨⟨x, r₂⟩, hp, hq⟩ := Option.map_eq_some_iff.mp h
    obtain ⟨rfl, rfl⟩ := Prod.mk.inj hq
    obtain ⟨u, xs, hs, htok, hsub, hu⟩ := ih hp
    obtain ⟨ws, rfl, hblank, hws⟩ := skipWs_reads hs
    refine ⟨start :: (ws ++ u) ++ [close], _, by simp, solid_cons_concat hstart hclose (ws ++ u),
      (Tokens.plain hplain.1 (hblank.append htok)).append (.plain hplain.2 .nil),
      fun k hk => by simp [hsub (hnames.2 x hk)], fun m hm r' _ => ?_⟩
    obtain ⟨m, rfl⟩ := Nat.exists_eq_add_one.mpr (Nat.lt_of_lt_of_le (by simp) hm)
    simp only [List.length_append, List.length_cons, List.length_nil] at hm
    have hhead : ¬ (u ++ close :: r').head? = some close := by
      rw [hws] at hempty
      cases u with
      | nil => simp at hempty
      | cons a u => simpa using hempty
    simp only [List.cons_append, List.append_assoc, List.nil_append, heq, hws, hhead,
      hu m (by omega) r', if_false, Option.map_some]

lemma parseValue_brace (m : ℕ) (s : PyStr) : parseValue (m + 1) (cp '{' :: s) =
    if (skipWs s).head? = some (cp '}') then some (.obj [], (skipWs s).tail)
    else (parsePairs m (skipWs s)).map fun p => (.obj (ofPairs p.1), p.2) := by
  simp only [parseValue, show ¬ cp '{' = cp '"' by decide, if_false, if_true]

lemma parseValue_bracket (m : ℕ) (s : PyStr) : parseValue (m + 1) (cp '[' :: s) =
    if (skipWs s).head? = some (cp ']') then some (.arr [], (skipWs s).tail)
    else (parseItems m (skipWs s)).map fun p => (.arr p.1, p.2) := by
  simp only [parseValue, show ¬ cp '[' = cp '"' by decide, show ¬ cp '[' = cp '{' by decide,
    if_false, if_true]

lemma parseValue_reads_succ {n : ℕ}
    (ihi : ∀ {s xs r}, parseItems n s = some (xs, r) →
      ReadsBody parseItems (fun _ => []) (cp ']') s xs r)
    (ihp : ∀ {s kvs r}, parsePairs n s = some (kvs, r) → ReadsBody parsePairs keys (cp '}') s kvs r)
    (h : parseValue (n + 1) s = some (v, r)) :
    ReadsValue s v r := by
  cases s with
  | nil => simp [parseValue] at h
  | cons c s =>
    by_cases hq : c = cp '"'
    · subst hq
      simp only [parseValue, if_true] at h
      obtain ⟨⟨x, r₁⟩, hx, hp⟩ := Option.map_eq_some_iff.mp h
      obtain ⟨rfl, rfl⟩ := Prod.mk.inj hp
      obtain ⟨u, rfl, -, hu⟩ := scanString_reads hx
      refine ⟨cp '"' :: u ++ [cp '"'], _, by simp, solid_cons_concat (by decide) (by decide) u,
        .string hu .nil, List.nil_subset _, fun m hm r' _ => ?_⟩
      obtain ⟨m, rfl⟩ := Nat.exists_eq_add_one.mpr (Nat.lt_of_lt_of_le (by simp) hm)
      simp only [List.length_append, List.length_cons, List.length_nil] at hm
      simp only [List.cons_append, List.append_assoc, List.nil_append, parseValue, if_true, hu,
        Option.map_some]
    · by_cases ho : c = cp '{'
      · subst ho
        exact parseBracket_reads_succ (.obj []) (fun kvs => .obj (ofPairs kvs)) (by decide)
          (by decide) (by decide) ⟨rfl, fun kvs k hk => (mem_keys_ofPairs kvs k).mp hk⟩
          parseValue_brace ihp h
      · by_cases ha : c = cp '['
        · subst ha
          exact parseBracket_reads_succ (.arr []) .arr (by decide) (by decide) (by decide)
            ⟨rfl, fun _ => List.nil_subset _⟩ parseValue_bracket ihi h
        · rw [parseValue_atom n hq ho ha] at h
          obtain ⟨u, hs, hsolid, hstart, htok, hu⟩ := scanAtom_reads h
          refine ⟨u, [], hs, hsolid, htok, scanAtom_keys h, fun m hm r' hr' => ?_⟩
          cases u with
          | nil => simp [solid] at hsolid
          | cons d u =>
            obtain ⟨m, rfl⟩ := Nat.exists_eq_add_one.mpr (Nat.lt_of_lt_of_le (by simp) hm)
            have hd : d ≠ cp '"' ∧ d ≠ cp '{' ∧ d ≠ cp '[' := by
              simpa [atomStart, and_assoc] using hstart
            rw [List.cons_append, parseValue_atom m hd.1 hd.2.1 hd.2.2]
            exact hu r' hr'

theorem parse_reads (n : ℕ) : (∀ {s v r}, parseValue n s = some (v, r) → ReadsValue s v r) ∧
      (∀ {s xs r}, parseItems n s = some (xs, r) →
        ReadsBody parseItems (fun _ => []) (cp ']') s xs r) ∧
      ∀ {s kvs r}, parsePairs n s = some (kvs, r) → ReadsBody parsePairs keys (cp '}') s kvs r := by
  induction n with
  | zero => exact ⟨fun h => by simp [parseValue] at h, fun h => by simp [parseItems] at h,
      fun h => by simp [parsePairs] at h⟩
  | succ n ih =>
    obtain ⟨ihv, ihi, ihp⟩ := ih
    exact ⟨fun h => parseValue_reads_succ ihi ihp h, fun h => parseItems_reads_succ ihv ihi h,
      fun h => parsePairs_reads_succ ihv ihp h⟩

lemma strip_solid {ws u r : PyStr} (hws : ∀ c ∈ ws, isSpace c = true) (hu : solid u = true)
    (hr : ∀ c ∈ r, isSpace c = true) : strip (ws ++ (u ++ r)) = u := by
  simp only [solid, Bool.and_eq_true] at hu
  have hl : lstrip (ws ++ (u ++ r)) = u ++ r := by
    refine (takeWhile_all hws fun c hc => ?_).2
    cases u with
    | nil => simp at hu
    | cons a u =>
      obtain rfl : a = c := by simpa using hc
      simpa using hu.1
  have hrev : (u ++ r).reverse.dropWhile isSpace = u.reverse := by
    rw [List.reverse_append]
    refine (takeWhile_all (fun c hc => hr c (List.mem_reverse.mp hc)) fun c hc => ?_).2
    rw [List.head?_reverse] at hc
    simpa [Option.mem_def.mp hc] using hu.2
  rw [strip, hl, rstrip, List.rdropWhile, hrev, List.reverse_reverse]

lemma loads_core {t : PyStr} (h : loads t = some v) :
    ∃ ws u r xs, t = ws ++ (u ++ r) ∧ (∀ c ∈ ws, isJsonSpace c = true) ∧
      (∀ c ∈ r, isJsonSpace c = true) ∧ solid u = true ∧ Tokens u xs ∧ keysOf v ⊆ xs ∧
      ∀ m, 2 * u.length ≤ m → ∀ r', Follow r' → parseValue m (u ++ r') = some (v, r') := by
  rw [loads] at h
  cases hp : parseValue (parseFuel t) (skipWs t) with
  | none => simp [hp] at h
  | some p =>
    obtain ⟨w, r⟩ := p
    simp only [hp] at h
    split_ifs at h with hr
    obtain rfl := Option.some.inj h
    obtain ⟨u, xs, hs, hsolid, htok, hkeys, hu⟩ := (parse_reads (parseFuel t)).1 hp
    obtain ⟨ws, ht, hws⟩ := skipWs_split t
    rw [hs] at ht
    exact ⟨ws, u, r, xs, ht, hws, skipWs_eq_nil (List.isEmpty_iff.mp hr), hsolid, htok, hkeys, hu⟩

theorem loads_strip {t : PyStr} (h : loads t = some v) {blank : PyStr}
    (hb : ∀ c ∈ blank, isSpace c = true) :
    strip (blank ++ t) ≠ [] ∧ loads (strip (blank ++ t)) = some v := by
  obtain ⟨ws, u, r, -, rfl, hws, hr, hsolid, -, -, hu⟩ := loads_core h
  have hstrip : strip (blank ++ (ws ++ (u ++ r))) = u := by
    rw [← List.append_assoc]
    refine strip_solid (fun c hc => ?_) hsolid fun c hc => isSpace_of_isJsonSpace (hr c hc)
    rcases List.mem_append.mp hc with hc | hc
    · exact hb c hc
    · exact isSpace_of_isJsonSpace (hws c hc)
  have hparse := hu (parseFuel u) (by rw [parseFuel]; omega) [] follow_nil
  have hskip := skipWs_solid hsolid []
  rw [List.append_nil] at hparse hskip
  rw [hstrip]
  refine ⟨?_, by rw [loads, hskip, hparse]; rfl⟩
  rintro rfl
  simp [solid] at hsolid

lemma tokens_loads {t : PyStr} (h : loads t = some v) : ∃ xs, Tokens t xs ∧ keysOf v ⊆ xs := by
  obtain ⟨ws, u, r, xs, rfl, hws, hr, -, htok, hkeys, -⟩ := loads_core h
  refine ⟨_, (tokens_blanks hws).append (htok.append (tokens_blanks hr)), ?_⟩
  simpa using hkeys

section Lexing
variable {st st' : Lex} {s t u w x r : PyStr} {xs : List PyStr}

lemma Tokens.lex_out (h : Tokens u xs) : lex .out u = some .out := by
  induction h with
  | nil => rfl
  | plain hc _ ih => rw [(lex_plain hc _).1, ih]
  | @string w x u xs hw _ ih =>
    obtain ⟨w', hw', hstr, -⟩ := scanString_reads (hw [])
    obtain rfl := List.append_cancel_right hw'
    rw [lex_cons, lexStep, if_pos rfl, Option.bind_some, lex_append, hstr,
      Option.bind_some, lex_cons,
      lexStep, if_pos rfl, Option.bind_some, ih]

lemma plain_of_lex_out (hw : ∀ r, scanString none (w ++ cp '"' :: r) = some (x, r))
    (h : lex .out (w ++ cp '"' :: u) = some st) : lex .str u = some st ∧
    ∀ c ∈ x, isPlain c = true := by
  induction w generalizing x with
  | nil =>
    obtain rfl : [] = x := by simpa [scanString_quote] using hw []
    exact ⟨by rw [← h, List.nil_append, lex_cons, lexStep, if_pos rfl]; rfl, by simp⟩
  | cons c w ih =>
    by_cases hq : c = cp '"'
    · have hlen := congrArg (fun p => (p.map fun p => p.2.length)) (hw [])
      rw [hq, List.cons_append, scanString_quote] at hlen
      simp at hlen
    by_cases hc : isPlain c = true
    · have hb : c ≠ cp '\\' := by rintro rfl; exact absurd hc (by decide)
      rw [List.cons_append, (lex_plain hc _).1] at h
      have hstep (r : PyStr) : ∃ y, scanString none (w ++ cp '"' :: r) =
          some (y, r) ∧ x = c :: y := by
        have hr := hw r
        rw [List.cons_append, scanString.eq_def] at hr
        simp only [hq, hb, if_false, Option.map_none, Option.toList_none, List.nil_append] at hr
        split_ifs at hr
        obtain ⟨⟨y, r'⟩, hy, hp⟩ := Option.map_eq_some_iff.mp hr
        obtain ⟨rfl, rfl⟩ := Prod.mk.inj hp
        exact ⟨y, hy, rfl⟩
      obtain ⟨y, -, rfl⟩ := hstep []
      obtain ⟨hst, hy⟩ := ih (fun r => by
        obtain ⟨z, hz, hx⟩ := hstep r
        exact (List.cons.inj hx).2 ▸ hz) h
      exact ⟨hst, List.forall_mem_cons.mpr ⟨hc, hy⟩⟩
    · rw [List.cons_append, lex_cons, lexStep, if_neg hq, if_neg hc] at h
      exact absurd h (by simp)

/-- Read from within a string, the strings are what stood between strings. -/
lemma Tokens.plain_of_lex_str (h : Tokens u xs) (hlex : lex .str u = some st) :
    ∀ x ∈ xs, ∀ c ∈ x, isPlain c = true := by
  induction h with
  | nil => simp
  | plain hc _ ih => exact ih (by rw [← (lex_plain hc _).2, hlex])
  | string hw _ ih =>
    rw [lex_cons, lexStep, if_pos rfl] at hlex
    obtain ⟨hst, hx⟩ := plain_of_lex_out hw hlex
    exact List.forall_mem_cons.mpr ⟨hx, ih hst⟩

lemma lex_spaces (hs : ∀ c ∈ s, isSpace c = true) (h : lex st s = some st') : st' = st := by
  induction s generalizing st with
  | nil => exact (Option.some.inj h).symm
  | cons c s ih =>
    have hc := hs c (by simp)
    have hq : c ≠ cp '"' := by rintro rfl; exact absurd hc (by decide)
    have hb : c ≠ cp '\\' := by rintro rfl; exact absurd hc (by decide)
    have hstep : lexStep st c = some st ∨ lexStep st c = none := by
      cases st with
      | out => by_cases hp : isPlain c = true <;> simp [lexStep, hq, hp]
      | str => simp [lexStep, hq, hb]
      | esc =>
        refine .inr (if_neg ?_)
        rintro (rfl | hu)
        · exact absurd hc (by decide)
        · rw [unescape] at hu
          split_ifs at hu <;> subst_vars <;> first | exact absurd hc (by decide) | simp at hu
    rw [lex_cons] at h
    rcases hstep with hstep | hstep
    · rw [hstep] at h
      exact ih (fun d hd => hs d (by simp [hd])) h
    · rw [hstep] at h
      exact absurd h (by simp)

lemma strip_split (s : PyStr) : ∃ a b, s = a ++ (strip s ++ b) ∧ (∀ c ∈ a, isSpace c = true) ∧
    ∀ c ∈ b, isSpace c = true := by
  refine ⟨s.takeWhile isSpace, ((lstrip s).reverse.takeWhile isSpace).reverse, ?_,
    fun _ hc => List.mem_takeWhile_imp hc, fun _ hc =>
      List.mem_takeWhile_imp (List.mem_reverse.mp hc)⟩
  rw [strip, rstrip, List.rdropWhile, ← List.reverse_append, List.takeWhile_append_dropWhile,
    List.reverse_reverse, lstrip, List.takeWhile_append_dropWhile]

lemma lex_strip (h : lex st s = some st') : lex st (strip s) = some st' := by
  obtain ⟨a, b, hs, ha, hb⟩ := strip_split s
  rw [hs, lex_append] at h
  obtain ⟨st₁, h₁, hrest⟩ := Option.bind_eq_some_iff.mp h
  obtain rfl := lex_spaces ha h₁
  rw [lex_append] at hrest
  obtain ⟨st₂, h₂, h₃⟩ := Option.bind_eq_some_iff.mp hrest
  rw [h₂, lex_spaces hb h₃]

theorem loads_open (h : lex .out s = some .str) : strip s ≠ [] ∧ loads (strip s) = none := by
  have hstrip := lex_strip h
  refine ⟨fun hnil => ?_, ?_⟩
  · rw [hnil] at hstrip
    exact absurd hstrip (by decide)
  · by_contra hload
    obtain ⟨v, hv⟩ := Option.ne_none_iff_exists'.mp hload
    obtain ⟨xs, htok, -⟩ := tokens_loads hv
    rw [htok.lex_out] at hstrip
    exact absurd hstrip (by decide)

theorem keys_plain_of_lex_str (h : lex .str s = some st) (hv : loads (strip s) = some v) :
    ∀ k ∈ keysOf v, ∀ c ∈ k, isPlain c = true := by
  obtain ⟨xs, htok, hkeys⟩ := tokens_loads hv
  exact fun k hk => htok.plain_of_lex_str (lex_strip h) k (hkeys hk)

def Inner (c : CodePoint) : Prop :=
  lexStep .out c = none ∧ lexStep .str c = some .str ∧ lexStep .esc c = none

instance (c : CodePoint) : Decidable (Inner c) := inferInstanceAs (Decidable (_ ∧ _ ∧ _))

lemma lex_at_inner (hc : Inner c) (h : lex st (s ++ c :: t) = some st') :
    lex st s = some .str ∧ lex .str t = some st' := by
  rw [lex_append] at h
  obtain ⟨mid, hmid, h⟩ := Option.bind_eq_some_iff.mp h
  rw [lex_cons] at h
  -- such a character is refused outside of strings and behind a backslash
  cases mid with
  | out => simp [hc.1] at h
  | str =>
    rw [hc.2.1] at h
    exact ⟨hmid, h⟩
  | esc => simp [hc.2.2] at h

end Lexing
end AgentTrajectory.PyJson
