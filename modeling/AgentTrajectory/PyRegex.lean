import AgentTrajectory.PyText

/-! Patterns of the `re` module. The matcher yields what is left of a text after every way
to match, in the order in which `re` tries them, so its first result is the match that
`re` takes; `Accepts` says which ways there are. -/
namespace AgentTrajectory.PyRegex
open PyText

inductive Regex
  | empty
  | one (p : CodePoint → Bool)
  | run (p : CodePoint → Bool) (lo : ℕ) (hi : Option ℕ)
  | seq (a b : Regex)
  | alt (a b : Regex)
  | boundary
  | notAfter (p : CodePoint → Bool)

namespace Regex

def lit : PyStr → Regex
  | [] => empty
  | c :: s => seq (one (· == c)) (lit s)

/-- `(a|b|...)`. -/
def oneOf : List Regex → Regex
  | [] => one fun _ => false
  | [r] => r
  | r :: rs => alt r (oneOf rs)

def texts (ss : List String) : Regex := oneOf (ss.map fun s => lit (py s))

/-- `a b ...`. -/
def all : List Regex → Regex
  | [] => empty
  | [r] => r
  | r :: rs => seq r (all rs)

/-- `r?`. -/
def opt (r : Regex) : Regex := alt r empty

def spaces : Regex := run isSpace 0 none

end Regex

/-- A literal character under `re.IGNORECASE`. -/
def anyCase (c : Char) (d : CodePoint) : Bool :=
  lowerAscii [d] == lowerAscii [cp c] || (c == 's' && d.val == 0x17F) || (c == 'k' && d.val == 0x212A) ||
    (c == 'i' && (d.val == 0x130 || d.val == 0x131))

def Regex.litAnyCase (s : String) : Regex := Regex.all (s.toList.map fun c => .one (anyCase c))

section Match
variable (isWord : CodePoint → Bool)

/-- `\b` between what stands on the left, reversed, and on the right. -/
def atBoundary (left s : PyStr) : Bool := left.head?.any isWord != s.head?.any isWord

def runLengths (lo : ℕ) (hi : Option ℕ) (n : ℕ) : List ℕ :=
  ((List.range (min n (hi.getD n) + 1)).filter fun k => decide (lo ≤ k)).reverse

/-- The text in front of the match, reversed, and the text behind it, for every match that
starts here. -/
def matchAt : Regex → PyStr → PyStr → List (PyStr × PyStr)
  | .empty, left, s => [(left, s)]
  | .one _, _, [] => []
  | .one p, left, c :: s => if p c then [(c :: left, s)] else []
  | .run p lo hi, left, s =>
      (runLengths lo hi (s.takeWhile p).length).map fun k => ((s.take k).reverse ++ left, s.drop k)
  | .seq a b, left, s => (matchAt a left s).flatMap fun q => matchAt b q.1 q.2
  | .alt a b, left, s => matchAt a left s ++ matchAt b left s
  | .boundary, left, s => if atBoundary isWord left s then [(left, s)] else []
  | .notAfter p, left, s => if left.head?.any p then [] else [(left, s)]

/-- `re.match`. -/
def isMatch (r : Regex) (s : PyStr) : Bool := !(matchAt isWord r [] s).isEmpty

def searchFrom (r : Regex) : PyStr → PyStr → Option (PyStr × PyStr)
  | left, [] => ((matchAt isWord r left []).head?).map fun q => (left, q.2)
  | left, c :: s =>
      match (matchAt isWord r left (c :: s)).head? with
      | some q => some (left, q.2)
      | none => searchFrom r (c :: left) s

/-- `re.search`. -/
def found (r : Regex) (s : PyStr) : Bool := (searchFrom isWord r [] s).isSome

def searchText (r : Regex) (s : PyStr) : Option PyStr :=
  (searchFrom isWord r [] s).map fun q => (s.drop q.1.length).take (s.length - q.1.length - q.2.length)

/-- The text that `b` matches where `a`, `b` and `c` match in a row. -/
def groupAt (a b c : Regex) (left s : PyStr) : Option PyStr :=
  ((matchAt isWord a left s).flatMap fun q => (matchAt isWord b q.1 q.2).filterMap fun t =>
    if (matchAt isWord c t.1 t.2).isEmpty then none else some (q.2.take (q.2.length - t.2.length))).head?

/-- `re.search(a(b)c, s).group(1)`. -/
def searchGroupFrom (a b c : Regex) : PyStr → PyStr → Option PyStr
  | left, [] => groupAt isWord a b c left []
  | left, d :: s => (groupAt isWord a b c left (d :: s)).or (searchGroupFrom a b c (d :: left) s)

def searchGroup (a b c : Regex) (s : PyStr) : Option PyStr := searchGroupFrom isWord a b c [] s

/-- `re.sub` with a pattern that never matches the empty text; the first characters, `skip`
many, belong to a match that was replaced. -/
def subFrom (r : Regex) (repl : PyStr → PyStr) : ℕ → PyStr → PyStr → PyStr
  | _, _, [] => []
  | skip + 1, left, c :: s => subFrom r repl skip (c :: left) s
  | 0, left, c :: s =>
      match (matchAt isWord r left (c :: s)).head? with
      | some q =>
          let n := s.length + 1 - q.2.length
          repl ((c :: s).take n) ++ subFrom r repl (n - 1) (c :: left) s
      | none => c :: subFrom r repl 0 (c :: left) s

def sub (r : Regex) (repl : PyStr → PyStr) (s : PyStr) : PyStr := subFrom isWord r repl 0 [] s

/-- `re.split` with such a pattern; `cur` is the open part, reversed. -/
def splitFrom (r : Regex) : ℕ → PyStr → PyStr → PyStr → List PyStr
  | _, _, cur, [] => [cur.reverse]
  | skip + 1, left, cur, c :: s => splitFrom r skip (c :: left) cur s
  | 0, left, cur, c :: s =>
      match (matchAt isWord r left (c :: s)).head? with
      | some q => cur.reverse :: splitFrom r (s.length - q.2.length) (c :: left) [] s
      | none => splitFrom r 0 (c :: left) (c :: cur) s

def split (r : Regex) (s : PyStr) : List PyStr := splitFrom isWord r 0 [] [] s

/-- The texts that `re.sub` replaces. -/
def hitsFrom (r : Regex) : ℕ → PyStr → PyStr → List PyStr
  | _, _, [] => []
  | skip + 1, left, c :: s => hitsFrom r skip (c :: left) s
  | 0, left, c :: s =>
      match (matchAt isWord r left (c :: s)).head? with
      | some q =>
          let n := s.length + 1 - q.2.length
          (c :: s).take n :: hitsFrom r (n - 1) (c :: left) s
      | none => hitsFrom r 0 (c :: left) s

def hits (r : Regex) (s : PyStr) : List PyStr := hitsFrom isWord r 0 [] s

/-- The pattern accepts the text `m` between what stands on its left, reversed, and right. -/
def Accepts : Regex → PyStr → PyStr → PyStr → Prop
  | .empty, _, m, _ => m = []
  | .one p, _, m, _ => ∃ c, m = [c] ∧ p c = true
  | .run p lo hi, _, m, _ => lo ≤ m.length ∧ (∀ h ∈ hi, m.length ≤ h) ∧ ∀ c ∈ m, p c = true
  | .seq a b, left, m, right =>
      ∃ m₁ m₂, m = m₁ ++ m₂ ∧ Accepts a left m₁ (m₂ ++ right) ∧ Accepts b (m₁.reverse ++ left) m₂ right
  | .alt a b, left, m, right => Accepts a left m right ∨ Accepts b left m right
  | .boundary, left, m, right => m = [] ∧ atBoundary isWord left right = true
  | .notAfter p, left, m, _ => m = [] ∧ left.head?.any p = false

end Match

section Spec
variable {isWord : CodePoint → Bool}

lemma mem_runLengths {lo n k : ℕ} {hi : Option ℕ} :
    k ∈ runLengths lo hi n ↔ lo ≤ k ∧ (∀ h ∈ hi, k ≤ h) ∧ k ≤ n := by
  rw [runLengths, List.mem_reverse, List.mem_filter, List.mem_range, decide_eq_true_eq]
  cases hi with
  | none =>
    simp only [Option.getD_none, min_self, Option.mem_def, reduceCtorEq, false_implies, implies_true,
      true_and]
    omega
  | some h =>
    simp only [Option.getD_some, Option.mem_def, Option.some.injEq, forall_eq']
    omega

lemma length_takeWhile_ge {p : CodePoint → Bool} {m t : PyStr} (h : ∀ c ∈ m, p c = true) :
    m.length ≤ ((m ++ t).takeWhile p).length := by
  induction m with
  | nil => simp
  | cons c m ih =>
    have := ih fun d hd => h d (by simp [hd])
    simp only [List.cons_append, List.takeWhile_cons, h c (by simp), if_true, List.length_cons]
    omega

theorem mem_matchAt {r : Regex} {left s left' t : PyStr} : (left', t) ∈ matchAt isWord r left s ↔
      ∃ m, s = m ++ t ∧ left' = m.reverse ++ left ∧ Accepts isWord r left m t := by
  induction r generalizing left s left' t with
  | empty => simp [matchAt, Accepts, and_comm, eq_comm]
  | one p =>
    cases s with
    | nil => simp [matchAt, Accepts]
    | cons c s =>
      rw [matchAt]
      split_ifs with hp
      · simp only [List.mem_singleton, Prod.mk.injEq, Accepts]
        constructor
        · rintro ⟨rfl, rfl⟩
          exact ⟨[c], rfl, rfl, c, rfl, hp⟩
        · rintro ⟨m, hs, rfl, d, rfl, -⟩
          obtain ⟨rfl, rfl⟩ := List.cons.inj hs
          exact ⟨rfl, rfl⟩
      · simp only [List.not_mem_nil, Accepts, false_iff]
        rintro ⟨m, hs, -, d, rfl, hd⟩
        obtain ⟨rfl, -⟩ := List.cons.inj hs
        exact hp hd
  | run p lo hi =>
    rw [matchAt, List.mem_map]
    simp only [Prod.mk.injEq, Accepts]
    constructor
    · rintro ⟨k, hk, rfl, rfl⟩
      obtain ⟨hlo, hhi, hn⟩ := mem_runLengths.mp hk
      have hlen : (s.take k).length = k := by
        rw [List.length_take]
        have := (List.takeWhile_prefix p (l := s)).length_le
        omega
      refine ⟨s.take k, (List.take_append_drop k s).symm, rfl, by omega, by rwa [hlen], fun c hc => ?_⟩
      have hpre : s.take k <+: s.takeWhile p :=
        List.prefix_of_prefix_length_le (List.take_prefix k s) (List.takeWhile_prefix p) (by omega)
      exact List.mem_takeWhile_imp (hpre.subset hc)
    · rintro ⟨m, rfl, rfl, hlo, hhi, hall⟩
      exact ⟨m.length, mem_runLengths.mpr ⟨hlo, hhi, length_takeWhile_ge hall⟩, by simp, by simp⟩
  | seq a b iha ihb =>
    simp only [matchAt, List.mem_flatMap, Prod.exists, iha, ihb, Accepts]
    constructor
    · rintro ⟨-, -, ⟨m₁, rfl, rfl, h₁⟩, m₂, rfl, rfl, h₂⟩
      exact ⟨m₁ ++ m₂, by simp, by simp, m₁, m₂, rfl, h₁, h₂⟩
    · rintro ⟨-, rfl, rfl, m₁, m₂, rfl, h₁, h₂⟩
      exact ⟨_, _, ⟨m₁, List.append_assoc .., rfl, h₁⟩, m₂, rfl, by simp, h₂⟩
  | alt a b iha ihb =>
    simp only [matchAt, List.mem_append, iha, ihb, Accepts]
    constructor
    · rintro (⟨m, hs, hl, h⟩ | ⟨m, hs, hl, h⟩)
      · exact ⟨m, hs, hl, .inl h⟩
      · exact ⟨m, hs, hl, .inr h⟩
    · rintro ⟨m, hs, hl, h | h⟩
      · exact .inl ⟨m, hs, hl, h⟩
      · exact .inr ⟨m, hs, hl, h⟩
  | boundary =>
    rw [matchAt]
    split_ifs with hb
    · simp only [List.mem_singleton, Prod.mk.injEq, Accepts]
      constructor
      · rintro ⟨rfl, rfl⟩
        exact ⟨[], rfl, rfl, rfl, hb⟩
      · rintro ⟨m, rfl, rfl, rfl, -⟩
        exact ⟨rfl, rfl⟩
    · simp only [List.not_mem_nil, Accepts, false_iff]
      rintro ⟨m, rfl, -, rfl, h⟩
      exact hb h
  | notAfter p =>
    rw [matchAt]
    split_ifs with hb
    · simp [Accepts, hb]
    · simp only [List.mem_singleton, Prod.mk.injEq, Accepts]
      constructor
      · rintro ⟨rfl, rfl⟩
        exact ⟨[], rfl, rfl, rfl, by simpa using hb⟩
      · rintro ⟨m, rfl, rfl, rfl, -⟩
        exact ⟨rfl, rfl⟩

end Spec
end AgentTrajectory.PyRegex
