import AgentTrajectory.PyRegexSub
import AgentTrajectory.PyJson

/-! `redact_credentials.py`: strings under a secret key are replaced whole, in all others the
credentials are. A list hides from its elements the key that it stands under. -/
namespace AgentTrajectory.RedactCredentials
open PyText PyDict PyJson PyRegex

def secretKeys : List PyStr :=
  [py "authorization", py "api_key", py "apikey", py "token", py "access_token",
    py "refresh_token", py "secret",
    py "app_secret", py "password", py "passwd", py "tenant_access_token", py "app_access_token"]

def isLetter (c : CodePoint) : Bool := (65 ≤ c.val && c.val ≤ 90) || (97 ≤ c.val && c.val ≤ 122)
def isAlnum (c : CodePoint) : Bool := isLetter c || (48 ≤ c.val && c.val ≤ 57)
def isKeyChar (c : CodePoint) : Bool := isAlnum c || c == cp '_' || c == cp '-'
def isTokenChar (c : CodePoint) : Bool := isKeyChar c || c == cp '.'
def isB (c : CodePoint) : Bool := c == cp 'B' || c == cp 'b'

/-! The patterns of `VAL_PATS`. -/

/-- `t-[A-Za-z0-9]{25,}`. -/
def tenantToken : Regex := .all [.lit (py "t-"), .run isAlnum 25 none]

/-- `(?<![A-Za-z])sk-[A-Za-z0-9][A-Za-z0-9_\-]{5,}`. -/
def secretKey :
    Regex := .all [.notAfter isLetter, .lit (py "sk-"), .one isAlnum, .run isKeyChar 5 none]

/-- `[Bb]earer\s+[A-Za-z0-9_\-\.]{10,}`. -/
def bearer : Regex := .all [.one isB, .lit (py "earer"), .run isSpace 1 none,
    .run isTokenChar 10 none]

def tenantMark : PyStr := py "<REDACTED_TENANT_TOKEN>"
def keyMark : PyStr := py "<REDACTED_KEY>"
def bearerMark : PyStr := py "Bearer <REDACTED>"
def fieldMark : PyStr := py "<REDACTED>"

/-- None of the patterns looks at word boundaries. -/
def noWord : CodePoint → Bool := fun _ => false

def replaceBy (r : Regex) (mark s : PyStr) : PyStr := sub noWord r (fun _ => mark) s

def redactStr (s : PyStr) : PyStr :=
  replaceBy bearer bearerMark (replaceBy secretKey keyMark (replaceBy tenantToken tenantMark s))

/-- `str.lower` where the result can be a secret key: the ASCII letters and the Kelvin sign. -/
def lowerKey (k : PyStr) : PyStr := lowerAscii (k.map fun c => if c.val = 0x212A then cp 'k' else c)

/-- The key that a string stands under is a secret one. -/
def isSecret (key : Option PyStr) : Bool := key.any fun k => k != [] && secretKeys.elem (lowerKey k)

def walkStr (key : Option PyStr) (s : PyStr) : PyStr :=
  if isSecret key && !isBlank s then fieldMark else redactStr s

mutual
def walk (key : Option PyStr) : Json → Json
  | .obj kvs => .obj (walkPairs kvs)
  | .arr xs => .arr (walkItems xs)
  | .str s => .str (walkStr key s)
  | v => v
def walkItems : List Json → List Json
  | [] => []
  | x :: xs => walk none x :: walkItems xs
def walkPairs : List (PyStr × Json) → List (PyStr × Json)
  | [] => []
  | (k, x) :: kvs => (k, walk (some k) x) :: walkPairs kvs
end

variable {l m w : PyStr}

lemma accepts_tenantToken :
    Accepts noWord tenantToken l m w → ∃ t, m = py "t-" ++ t ∧ ∀ c ∈ t, isAlnum c = true := by
  rintro ⟨m₁, t, rfl, h₁, -, -, hall⟩
  exact ⟨t, by rw [accepts_lit.mp h₁], hall⟩

lemma accepts_secretKey :
    Accepts noWord secretKey l m w → ∃ t, m = py "sk-" ++ t ∧ ∀ c ∈ t, isKeyChar c = true := by
  rintro ⟨-, -, rfl, ⟨rfl, -⟩, m₁, -, rfl, h₁, -, t, rfl, ⟨c, rfl, hc⟩, -, -, hall⟩
  refine ⟨c :: t, by rw [accepts_lit.mp h₁]; rfl, fun d hd => ?_⟩
  rcases List.mem_cons.mp hd with rfl | hd
  · simp [isKeyChar, hc]
  · exact hall d hd

lemma accepts_bearer :
    Accepts noWord bearer l m w → ∃ b sp t, m = b :: (py "earer" ++ (sp ++ t)) ∧ isB b = true ∧
    1 ≤ sp.length ∧ (∀ c ∈ sp, isSpace c = true) ∧ 10 ≤ t.length ∧ ∀ c ∈ t,
    isTokenChar c = true := by
  rintro ⟨-, -, rfl, ⟨b, rfl, hb⟩, m₁, -, rfl, h₁, sp, t, rfl, ⟨hsp, -, hspace⟩, ht, -, htok⟩
  exact ⟨b, sp, t, by rw [accepts_lit.mp h₁]; rfl, hb, hsp, hspace, ht, htok⟩

def Alike (a b : CodePoint) :
    Prop := a = b ∨ (isB a = true ∧ isB b = true) ∨ (isSpace a = true ∧ isSpace b = true)

lemma cp_val (c : Char) : (cp c).val = c.toNat := by
  simp [cp, Fin.ofNat, Nat.mod_eq_of_lt (toNat_lt c)]

lemma respects_alike {p : CodePoint → Bool} (hb : p (cp 'B') = p (cp 'b'))
    (hs : (∀ c, isSpace c = true → p c = false) ∨ ∀ c, isSpace c = true →
      p c = true) : Respects Alike p := by
  rintro a b (rfl | ⟨ha, hb'⟩ | ⟨ha, hb'⟩)
  · rfl
  · simp only [isB, Bool.or_eq_true, beq_iff_eq] at ha hb'
    rcases ha with rfl | rfl <;> rcases hb' with rfl | rfl <;> simp [hb]
  · rcases hs with hs | hs <;> rw [hs a ha, hs b hb']

lemma isTokenChar_of_isSpace {c : CodePoint} (h : isSpace c = true) : isTokenChar c = false := by
  simp only [isSpace, Bool.or_eq_true, Bool.and_eq_true, decide_eq_true_eq, beq_iff_eq] at h
  have hne : ∀ d : Char, d.toNat ≠ c.val → (c == cp d) = false := fun d hd => by
    rw [beq_eq_false_iff_ne]
    rintro rfl
    exact hd (cp_val d).symm
  rw [isTokenChar, isKeyChar, isAlnum, isLetter, hne '_' (by simp; omega), hne '-' (by simp; omega),
    hne '.' (by simp; omega)]
  simp
  omega

lemma respects_eq {d : CodePoint} (hb : isB d = false) (hs : isSpace d = false) :
    Respects Alike (· == d) := by
  have hne : ∀ c, isB c = true ∨ isSpace c = true → (c == d) = false := by
    rintro c hc
    rw [beq_eq_false_iff_ne]
    rintro rfl
    simp [hb, hs] at hc
  exact respects_alike (by rw [hne _ (.inl (by decide)), hne _ (.inl (by decide))])
    (.inl fun c hc => hne c (.inr hc))

lemma isLetter_le {c : CodePoint} (h : isLetter c = true) : isAlnum c = true := by simp [isAlnum, h]
lemma isAlnum_le {c : CodePoint} (h : isAlnum c = true) :
    isKeyChar c = true := by simp [isKeyChar, h]
lemma isKeyChar_le {c : CodePoint} (h : isKeyChar c = true) :
    isTokenChar c = true := by simp [isTokenChar, h]

lemma respects_of_le {p : CodePoint → Bool} (hp : ∀ c, p c = true → isTokenChar c = true)
    (hb : p (cp 'B') = p (cp 'b')) : Respects Alike p := by
  refine respects_alike hb (.inl fun c hc => ?_)
  by_contra h
  simpa [isTokenChar_of_isSpace hc] using hp c (by simpa using h)

lemma respects_letter : Respects Alike isLetter :=
  respects_of_le (fun _ h => isKeyChar_le (isAlnum_le (isLetter_le h))) (by decide)
lemma respects_alnum : Respects Alike isAlnum :=
  respects_of_le (fun _ h => isKeyChar_le (isAlnum_le h)) (by decide)
lemma respects_keyChar :
    Respects Alike isKeyChar := respects_of_le (fun _ h => isKeyChar_le h) (by decide)
lemma respects_tokenChar : Respects Alike isTokenChar := respects_of_le (fun _ h => h) (by decide)
lemma respects_space : Respects Alike isSpace := respects_alike (by decide) (.inr fun _ h => h)

lemma isTokenChar_of_isB {c : CodePoint} (h : isB c = true) : isTokenChar c = true := by
  simp only [isB, Bool.or_eq_true, beq_iff_eq] at h
  rcases h with rfl | rfl <;> decide

lemma respects_b :
    Respects Alike isB := respects_of_le (fun _ h => isTokenChar_of_isB h) (by decide)

lemma opening_not_token : isTokenChar (cp '<') = false := by decide
lemma closing_not_token : isTokenChar (cp '>') = false := by decide

/-- The replacement of `r` by a mark, as seen by the other patterns. -/
abbrev Made (r : Regex) (mark : PyStr) (q : Regex) (start : CodePoint → Bool) : Prop :=
  Unmade noWord r (fun _ => mark) Alike (cp '<') (cp '>') (fun _ _ => True) q start

lemma unmarked_of_tokenChars {head t : PyStr} (hhead : cp '<' ∉ head ∧ cp '>' ∉ head)
    (ht : ∀ c ∈ t, isTokenChar c = true) : cp '<' ∉ head ++ t ∧ cp '>' ∉ head ++ t := by
  constructor
  · intro h
    rcases List.mem_append.mp h with h | h
    · exact hhead.1 h
    · simpa [opening_not_token] using ht _ h
  · intro h
    rcases List.mem_append.mp h with h | h
    · exact hhead.2 h
    · simpa [closing_not_token] using ht _ h

lemma respects_lit {s : PyStr} (hs : (s.all fun c => !isB c && !isSpace c) = true) :
    ∀ p ∈ (Regex.lit s).classes, Respects Alike p := by
  intro p hp
  obtain ⟨c, hc, rfl⟩ := List.mem_map.mp (classes_lit s ▸ hp)
  have h := List.all_eq_true.mp hs c hc
  simp only [Bool.and_eq_true, Bool.not_eq_true'] at h
  exact respects_eq h.1 h.2

lemma classes_tenantToken : ∀ p ∈ tenantToken.classes, Respects Alike p := by
  intro p hp
  rcases List.mem_append.mp hp with hp | hp
  · exact respects_lit (by decide) p hp
  · rw [List.mem_singleton.mp hp]
    exact respects_alnum

lemma made_tenantToken {r : Regex} {mark : PyStr} (hdash : cp '-' ∉ mark) :
    Made r mark tenantToken (· == cp 't') where
  classes := classes_tenantToken
  behind := by simp [tenantToken, Regex.all, Regex.behind]
  unmarked l m w h := by
    obtain ⟨t, rfl, ht⟩ := accepts_tenantToken h
    exact unmarked_of_tokenChars (by decide) fun c hc => isKeyChar_le (isAlnum_le (ht c hc))
  first l m w h := by
    obtain ⟨t, rfl, -⟩ := accepts_tenantToken h
    rfl
  inside left m t _ l seg w hseg h := by
    obtain ⟨t, rfl, -⟩ := accepts_tenantToken h
    exact hdash (hseg.subset (by simp [py]))
  after := .inl (by simp [tenantToken, Regex.all, Regex.behind])
  ahead := .inl (by simp [tenantToken, Regex.all, Regex.looksAhead])

lemma made_secretKey {r : Regex} {mark : PyStr} (hdash : cp '-' ∉ mark) {p : CodePoint → Bool}
    (hgreedy : EndsGreedy noWord r p) (hs : p (cp 's') = true) :
    Made r mark secretKey (· == cp 's') where
  classes := by
    intro p hp
    simp only [secretKey, Regex.all, Regex.classes, List.nil_append, List.mem_append] at hp
    rcases hp with hp | hp | hp
    · exact respects_lit (by decide) p hp
    · rw [List.mem_singleton.mp hp]
      exact respects_alnum
    · rw [List.mem_singleton.mp hp]
      exact respects_keyChar
  behind := by
    intro p hp
    simp only [secretKey, Regex.all, Regex.behind, behind_lit, List.append_nil,
      List.mem_singleton] at hp
    rw [hp]
    exact respects_letter
  unmarked l m w h := by
    obtain ⟨t, rfl, ht⟩ := accepts_secretKey h
    exact unmarked_of_tokenChars (by decide) fun c hc => isKeyChar_le (ht c hc)
  first l m w h := by
    obtain ⟨t, rfl, -⟩ := accepts_secretKey h
    rfl
  inside left m t _ l seg w hseg h := by
    obtain ⟨t, rfl, -⟩ := accepts_secretKey h
    exact hdash (hseg.subset (by simp [py]))
  after := by
    refine .inr fun left m t hm => ?_
    have hend := hgreedy _ _ _ hm.2
    cases t with
    | nil => rfl
    | cons c t =>
      simp only [List.head?_cons, Option.any_some] at hend ⊢
      rw [beq_eq_false_iff_ne]
      rintro rfl
      simp [hs] at hend
  ahead := .inl (by simp [secretKey, Regex.all, Regex.looksAhead])

lemma infix_bearerMark {seg : PyStr} (h : seg <:+: bearerMark) (hlen : 17 ≤ seg.length) :
    cp '<' ∈ seg := by
  have hle : bearerMark.length = 17 := by decide
  have heq : seg = bearerMark := h.sublist.eq_of_length_le (by omega)
  rw [heq]
  decide

lemma unmarked_bearer {l m w : PyStr} (h : Accepts noWord bearer l m w) :
    cp '<' ∉ m ∧ cp '>' ∉ m := by
  obtain ⟨b, sp, t, rfl, hb, -, hsp, -, ht⟩ := accepts_bearer h
  have hmark : ∀ c, isTokenChar c = false → isSpace c = false →
      c ∉ b :: (py "earer" ++ (sp ++ t)) := by
    intro c hc hc' hmem
    rcases List.mem_cons.mp hmem with rfl | hmem
    · simp [isTokenChar_of_isB hb] at hc
    · rcases List.mem_append.mp hmem with hmem | hmem
      · have htok := List.all_eq_true.mp (show (py "earer").all isTokenChar = true by decide) c hmem
        simp [htok] at hc
      · rcases List.mem_append.mp hmem with hmem | hmem
        · simp [hsp c hmem] at hc'
        · simp [ht c hmem] at hc
  exact ⟨hmark _ (by decide) (by decide), hmark _ (by decide) (by decide)⟩

lemma made_bearer : Made bearer bearerMark bearer isB where
  classes := by
    intro p hp
    simp only [bearer, Regex.all, Regex.classes, List.mem_append, List.mem_singleton] at hp
    rcases hp with rfl | hp | rfl | rfl
    · exact respects_b
    · exact respects_lit (by decide) p hp
    · exact respects_space
    · exact respects_tokenChar
  behind := by simp [bearer, Regex.all, Regex.behind]
  unmarked l m w h := unmarked_bearer h
  first l m w h := by
    obtain ⟨b, sp, t, rfl, hb, -⟩ := accepts_bearer h
    exact hb
  inside left m t _ l seg w hseg h := by
    have hlen : 17 ≤ seg.length := by
      obtain ⟨b, sp, t, rfl, -, hsp, -, ht, -⟩ := accepts_bearer h
      simp only [List.length_cons, List.length_append, show (py "earer").length = 5 from rfl]
      omega
    exact (unmarked_bearer h).1 (infix_bearerMark hseg hlen)
  after := .inl (by simp [bearer, Regex.all, Regex.behind])
  ahead := .inl (by simp [bearer, Regex.all, Regex.looksAhead])

lemma alike_refl (c : CodePoint) : Alike c c := .inl rfl

lemma bracketed_mark {r : Regex} {mark : PyStr} (hhead : mark.head? = some (cp '<'))
    (hlast : mark.getLast? = some (cp '>')) :
    Bracketed noWord r (fun _ => mark) Alike (cp '<') (cp '>') (fun _ _ => True) where
  refl := alike_refl
  shape _ _ _ _ := by
    obtain ⟨body, rfl⟩ := List.head?_eq_some_iff.mp hhead
    exact ⟨[], body, rfl, .nil, trivial⟩
  last _ := hlast

lemma bracketed_bearer :
    Bracketed noWord bearer (fun _ => bearerMark) Alike (cp '<') (cp '>') (fun _ _ => True) where
  refl := alike_refl
  shape left m t hm := by
    obtain ⟨m', hs, hleft, hacc⟩ := mem_matchAt.mp (List.mem_of_mem_head? hm.2)
    have hm' : m = m' := List.append_cancel_right hs
    obtain ⟨b, sp, tok, rfl, hb, hsp, hspace, -⟩ := accepts_bearer (hm' ▸ hacc)
    obtain ⟨c, sp, rfl⟩ := List.exists_cons_of_length_pos hsp
    refine ⟨py "Bearer ", py "REDACTED>", rfl, ?_, trivial⟩
    have hc := hspace c List.mem_cons_self
    refine .cons (.inr (.inl ⟨hb, by decide⟩)) ?_
    refine .cons (.inl rfl)
      (.cons (.inl rfl) (.cons (.inl rfl) (.cons (.inl rfl) (.cons (.inl rfl) ?_))))
    exact .cons (.inr (.inr ⟨hc, by decide⟩)) .nil
  last _ := rfl

lemma not_accepts_nil_tenantToken (left w : PyStr) :
    ¬Accepts noWord tenantToken left [] w := fun h => by
  obtain ⟨t, ht, -⟩ := accepts_tenantToken h
  simp [py] at ht

lemma not_accepts_nil_secretKey (left w : PyStr) :
    ¬Accepts noWord secretKey left [] w := fun h => by
  obtain ⟨t, ht, -⟩ := accepts_secretKey h
  simp [py] at ht

lemma not_accepts_nil_bearer (left w : PyStr) : ¬Accepts noWord bearer left [] w := fun h => by
  obtain ⟨b, sp, t, ht, -⟩ := accepts_bearer h
  simp at ht

lemma greedy_secretKey : EndsGreedy noWord secretKey isKeyChar :=
  endsGreedy_seq (endsGreedy_seq (endsGreedy_seq (endsGreedy_run _ _)))

lemma greedy_bearer : EndsGreedy noWord bearer isTokenChar :=
  endsGreedy_seq (endsGreedy_seq (endsGreedy_seq (endsGreedy_run _ _)))

lemma noMatch_replaceBy {r q : Regex} {mark s : PyStr} {start : CodePoint → Bool}
    (hm : Made r mark q start)
    (hbr : Bracketed noWord r (fun _ => mark) Alike (cp '<') (cp '>') (fun _ _ => True))
    (hne : ∀ left w, ¬Accepts noWord r left [] w) (hq : q = r ∨ NoMatch noWord q s) :
    NoMatch noWord q (replaceBy r mark s) := hm.noMatch_sub hbr hne hq

def patterns : List Regex := [tenantToken, secretKey, bearer]

theorem noMatch_redactStr (s : PyStr) : ∀ r ∈ patterns, NoMatch noWord r (redactStr s) := by
  have hbt : Bracketed noWord tenantToken (fun _ => tenantMark) Alike (cp '<')
    (cp '>') (fun _ _ => True) :=
    bracketed_mark (by decide) (by decide)
  have hbk : Bracketed noWord secretKey (fun _ => keyMark) Alike (cp '<')
    (cp '>') (fun _ _ => True) :=
    bracketed_mark (by decide) (by decide)
  have ht₁ : NoMatch noWord tenantToken (replaceBy tenantToken tenantMark s) :=
    noMatch_replaceBy (made_tenantToken (by decide)) hbt not_accepts_nil_tenantToken (.inl rfl)
  have ht₂ : NoMatch noWord tenantToken
    (replaceBy secretKey keyMark (replaceBy tenantToken tenantMark s)) :=
    noMatch_replaceBy (made_tenantToken (by decide)) hbk not_accepts_nil_secretKey (.inr ht₁)
  have hk₂ : NoMatch noWord secretKey
    (replaceBy secretKey keyMark (replaceBy tenantToken tenantMark s)) :=
    noMatch_replaceBy (made_secretKey (by decide) greedy_secretKey (by decide)) hbk
      not_accepts_nil_secretKey (.inl rfl)
  intro r hr
  simp only [patterns, List.mem_cons, List.not_mem_nil, or_false] at hr
  rcases hr with rfl | rfl | rfl
  · exact noMatch_replaceBy (made_tenantToken (by decide)) bracketed_bearer
      not_accepts_nil_bearer (.inr ht₂)
  · exact noMatch_replaceBy (made_secretKey (by decide) greedy_bearer (by decide)) bracketed_bearer
      not_accepts_nil_bearer (.inr hk₂)
  · exact noMatch_replaceBy made_bearer bracketed_bearer not_accepts_nil_bearer (.inl rfl)

lemma redactStr_of_noMatch {s : PyStr} (h : ∀ r ∈ patterns, NoMatch noWord r s) :
    redactStr s = s := by
  have hstep : ∀ r ∈ patterns, ∀ mark, replaceBy r mark s = s :=
    fun r hr mark => sub_eq_self (h r hr)
  rw [redactStr, hstep tenantToken (by simp [patterns]), hstep secretKey (by simp [patterns]),
    hstep bearer (by simp [patterns])]

lemma noMatch_fieldMark : ∀ r ∈ patterns, NoMatch noWord r fieldMark := by
  intro r hr
  rw [← found_eq_false]
  simp only [patterns, List.mem_cons, List.not_mem_nil, or_false] at hr
  rcases hr with rfl | rfl | rfl <;> decide +kernel

lemma noMatch_of_isBlank {s : PyStr} (h : isBlank s = true) :
    ∀ r ∈ patterns, NoMatch noWord r s := by
  have hspace := (isBlank_iff s).mp h
  intro r hr u m w hs hacc
  have hin : ∀ c ∈ m, isSpace c = true := fun c hc => hspace c (by simp [hs, hc])
  simp only [patterns, List.mem_cons, List.not_mem_nil, or_false] at hr
  rcases hr with rfl | rfl | rfl
  · obtain ⟨t, rfl, -⟩ := accepts_tenantToken hacc
    exact absurd (hin (cp 't') (by simp [py])) (by decide)
  · obtain ⟨t, rfl, -⟩ := accepts_secretKey hacc
    exact absurd (hin (cp 's') (by simp [py])) (by decide)
  · obtain ⟨b, sp, t, rfl, -⟩ := accepts_bearer hacc
    exact absurd (hin (cp 'e') (by simp [py])) (by decide)

lemma walkStr_walkStr (key : Option PyStr) (s : PyStr) :
    walkStr key (walkStr key s) = walkStr key s := by
  have hsame : redactStr (redactStr s) = redactStr s := redactStr_of_noMatch (noMatch_redactStr s)
  by_cases hk : isSecret key = true
  · by_cases hb : isBlank s = true
    · have hs : redactStr s = s := redactStr_of_noMatch (noMatch_of_isBlank hb)
      simp [walkStr, hb, hs]
    · have hmark : isBlank fieldMark = false := by decide
      simp [walkStr, hk, hb, hmark]
  · simp [walkStr, hk, hsame]

theorem walk_walk (v : Json) (key : Option PyStr) : walk key (walk key v) = walk key v := by
  induction v using Json.ind generalizing key with
  | str s => simp only [walk, walkStr_walkStr]
  | arr xs ih =>
    have hitems : walkItems (walkItems xs) = walkItems xs := by
      induction xs with
      | nil => rfl
      | cons x xs ihx =>
        simp only [walkItems, ih x (by simp), ihx fun y hy => ih y (by simp [hy])]
    simp only [walk, hitems]
  | obj kvs ih =>
    have hpairs : walkPairs (walkPairs kvs) = walkPairs kvs := by
      induction kvs with
      | nil => rfl
      | cons kv kvs ihx =>
        obtain ⟨k, x⟩ := kv
        simp only [walkPairs, ih (k, x) (by simp), ihx fun y hy => ih y (by simp [hy])]
    simp only [walk, hpairs]
  | _ => rfl

structure Leaf where
  key : Option PyStr
  listed : Bool
  text : PyStr
  deriving DecidableEq

mutual
/-- The strings of a value, from left to right. -/
def leaves (key : Option PyStr) (listed : Bool) : Json → List Leaf
  | .obj kvs => leavesPairs kvs
  | .arr xs => leavesItems key xs
  | .str s => [⟨key, listed, s⟩]
  | _ => []
def leavesItems (key : Option PyStr) : List Json → List Leaf
  | [] => []
  | x :: xs => leaves key true x ++ leavesItems key xs
def leavesPairs : List (PyStr × Json) → List Leaf
  | [] => []
  | (k, x) :: kvs => leaves (some k) false x ++ leavesPairs kvs
end

def Leaf.walked (l : Leaf) :
    Leaf := { l with text := walkStr (if l.listed then none else l.key) l.text }

lemma leaves_walk (v : Json) (key : Option PyStr) (listed : Bool) :
    leaves key listed (walk (if listed then none else key) v) =
      (leaves key listed v).map Leaf.walked := by
  induction v using Json.ind generalizing key listed with
  | str s => rfl
  | arr xs ih =>
    have hitems : leavesItems key (walkItems xs) = (leavesItems key xs).map Leaf.walked := by
      induction xs with
      | nil => rfl
      | cons x xs ihx =>
        have hx := ih x (by simp) key true
        rw [if_pos rfl] at hx
        simp only [walkItems, leavesItems, List.map_append, hx, ihx fun y hy => ih y (by simp [hy])]
    simp only [walk, leaves, hitems]
  | obj kvs ih =>
    have hpairs : leavesPairs (walkPairs kvs) = (leavesPairs kvs).map Leaf.walked := by
      induction kvs with
      | nil => rfl
      | cons kv kvs ihx =>
        obtain ⟨k, x⟩ := kv
        have hx := ih (k, x) (by simp) (some k) false
        simp only [Bool.false_eq_true, if_false] at hx
        simp only [walkPairs, leavesPairs, List.map_append, hx, ihx fun y hy => ih y (by simp [hy])]
    simp only [walk, leaves, hpairs]
  | _ => rfl

lemma leaves_walk_top (v : Json) :
    leaves none false (walk none v) = (leaves none false v).map Leaf.walked :=
  leaves_walk v none false

lemma Replaced.eq_or_infix {r : Regex} {mark left s out : PyStr} {found : List PyStr}
    (h : Replaced noWord r (fun _ => mark) left s out found) : out = s ∨ mark <:+: out := by
  induction h with
  | nil => exact .inl rfl
  | keep _ _ ih =>
    rcases ih with rfl | ih
    · exact .inl rfl
    · exact .inr (ih.trans (List.suffix_cons _ _).isInfix)
  | hit _ _ _ => exact .inr (List.prefix_append _ _).isInfix

lemma replaceBy_eq_fieldMark {r : Regex} {mark s : PyStr}
    (hne : ∀ left w, ¬Accepts noWord r left [] w) (hlen : fieldMark.length < mark.length)
    (h : replaceBy r mark s = fieldMark) : s = fieldMark := by
  rcases Replaced.eq_or_infix (replaced_subFrom hne [] s) with heq | hin
  · exact heq.symm.trans h
  · have hle : mark.length ≤ fieldMark.length := (h ▸ hin : mark <:+: fieldMark).length_le
    omega

lemma redactStr_eq_fieldMark {s : PyStr} : redactStr s = fieldMark ↔ s = fieldMark := by
  constructor
  · intro h
    have h₂ := replaceBy_eq_fieldMark not_accepts_nil_bearer (by decide) h
    have h₁ := replaceBy_eq_fieldMark not_accepts_nil_secretKey (by decide) h₂
    exact replaceBy_eq_fieldMark not_accepts_nil_tenantToken (by decide) h₁
  · rintro rfl
    exact redactStr_of_noMatch noMatch_fieldMark

lemma Leaf.walked_text_eq {l : Leaf} (hk : isSecret l.key = true) (hb : isBlank l.text = false) :
    l.walked.text = fieldMark ↔ (l.listed = true → l.text = fieldMark) := by
  cases hl : l.listed with
  | false => simp [Leaf.walked, hl, walkStr, hk, hb]
  | true =>
    have hnone : isSecret none = false := rfl
    simp [Leaf.walked, hl, walkStr, hnone, redactStr_eq_fieldMark]

/-- Every string under a secret key is replaced if and only if none stands in a list there that
is not a mark already; no string that is left holds a credential, and a second walk changes
nothing. -/
theorem walk_redacts_iff (v : Json) :
    ((∀ p ∈ (leaves none false v).zip (leaves none false (walk none v)),
        isSecret p.1.key = true → isBlank p.1.text = false → p.2.text = fieldMark) ↔
      ∀ l ∈ leaves none false v, l.listed = true → isSecret l.key = true → isBlank l.text = false →
        l.text = fieldMark) ∧
    (∀ l ∈ leaves none false (walk none v), ∀ r ∈ [tenantToken, secretKey, bearer],
      NoMatch noWord r l.text) ∧
    walk none (walk none v) = walk none v := by
  refine ⟨?_, ?_, walk_walk v none⟩
  · rw [leaves_walk_top, ← List.map_prod_left_eq_zip]
    constructor
    · intro hall l hl hlist hk hb
      exact (l.walked_text_eq hk hb).mp (hall _ (List.mem_map_of_mem hl) hk hb) hlist
    · intro hall p hp hk hb
      obtain ⟨l, hl, rfl⟩ := List.mem_map.mp hp
      exact (l.walked_text_eq hk hb).mpr fun hlist => hall l hl hlist hk hb
  · rw [leaves_walk_top]
    intro l hl
    obtain ⟨l₀, -, rfl⟩ := List.mem_map.mp hl
    have htext : l₀.walked.text = fieldMark ∨ l₀.walked.text = redactStr l₀.text := by
      rw [Leaf.walked]
      exact ite_eq_or_eq ..
    rcases htext with htext | htext
    · rw [htext]
      exact noMatch_fieldMark
    · rw [htext]
      exact noMatch_redactStr l₀.text

/-- A token in a list stays as it is. -/
theorem listed_token_kept :
    walk none (.obj [(py "token", .arr [.str (py "hunter2")])]) =
      .obj [(py "token", .arr [.str (py "hunter2")])] ∧
      leaves none false (.obj [(py "token", .arr [.str (py "hunter2")])]) =
        [⟨some (py "token"), true, py "hunter2"⟩] ∧
      isSecret (some (py "token")) = true ∧ isBlank (py "hunter2") = false := by
  refine ⟨by decide +kernel, by decide, by decide, by decide⟩

end AgentTrajectory.RedactCredentials
