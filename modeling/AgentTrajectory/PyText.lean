import Mathlib

/-! Python `str` values and the string methods the scripts call. A string is a list
of code points, lone surrogates included, because a JSON escape can put one into a
`str`. Encoding fails on them and decoding replaces what is not UTF-8, as CPython does. -/
namespace AgentTrajectory.PyText

/-- The exceptions the modelled code can raise. -/
inductive PyError
  | typeError
  | attributeError
  | keyError
  | indexError
  | valueError
  | overflowError
  | unicodeEncodeError
  | jsonDecodeError
  | badGzipFile
  deriving DecidableEq

abbrev CodePoint := Fin 0x110000
abbrev PyStr := List CodePoint

instance neZeroCodePoints : NeZero 0x110000 := ⟨by decide⟩

instance lawfulBEqPyStr : LawfulBEq PyStr := inferInstance

def cp (c : Char) : CodePoint := Fin.ofNat _ c.toNat

/-- A string literal of the source. -/
def py (s : String) : PyStr := s.toList.map cp

/-- `str.isspace` on one code point. -/
def isSpace (c : CodePoint) : Bool :=
  (9 ≤ c.val && c.val ≤ 13) || (28 ≤ c.val && c.val ≤ 32) || c.val == 0x85 || c.val == 0xA0 ||
    c.val == 0x1680 || (0x2000 ≤ c.val && c.val ≤ 0x200A) || c.val == 0x2028 ||
    c.val == 0x2029 || c.val == 0x202F || c.val == 0x205F || c.val == 0x3000

/-- The line boundaries of `str.splitlines`. -/
def isLineBreak (c : CodePoint) : Bool :=
  (10 ≤ c.val && c.val ≤ 13) || (28 ≤ c.val && c.val ≤ 30) || c.val == 0x85 ||
    c.val == 0x2028 || c.val == 0x2029

def lstrip (s : PyStr) : PyStr := s.dropWhile isSpace
def rstrip (s : PyStr) : PyStr := s.rdropWhile isSpace
def strip (s : PyStr) : PyStr := rstrip (lstrip s)

def isBlank (s : PyStr) : Bool := (strip s).isEmpty

def startswith (s p : PyStr) : Bool := p.isPrefixOf s

/-- `p in s`. -/
def contains (p : PyStr) : PyStr → Bool
  | [] => p.isEmpty
  | c :: s => startswith (c :: s) p || contains p s

/-- What stands in front of and behind the first `sep` in the text. -/
def cut (sep : PyStr) : PyStr → Option (PyStr × PyStr)
  | [] => if sep = [] then some ([], []) else none
  | c :: s =>
      if startswith (c :: s) sep then some ([], (c :: s).drop sep.length)
      else (cut sep s).map fun p => (c :: p.1, p.2)

/-- The loop of `str.splitlines`: `cur` is the open line, reversed, and `cr` records
that the last boundary was a carriage return, whose line feed is swallowed. -/
def splitlinesFrom (cr : Bool) (cur : PyStr) : PyStr → List PyStr
  | [] => if cur = [] then [] else [cur.reverse]
  | c :: s =>
      if cr && c == cp '\n' then splitlinesFrom false [] s
      else if isLineBreak c then cur.reverse :: splitlinesFrom (c == cp '\r') [] s
      else splitlinesFrom false (c :: cur) s

def splitlines (s : PyStr) : List PyStr := splitlinesFrom false [] s

/-- `sep.join(parts)`. -/
def join (sep : PyStr) : List PyStr → PyStr
  | [] => []
  | [s] => s
  | s :: t :: rest => s ++ sep ++ join sep (t :: rest)

/-- `s.split(c)[0]`. -/
def firstField (c : CodePoint) (s : PyStr) : PyStr := s.takeWhile (· != c)

/-- `"".join(s.split())`. -/
def dropSpaces (s : PyStr) : PyStr := s.filter (!isSpace ·)

/-- `str.lower` on the ASCII letters. -/
def lowerAscii (s : PyStr) : PyStr :=
  s.map fun c => if 65 ≤ c.val && c.val ≤ 90 then Fin.ofNat _ (c.val + 32) else c

def hexDigit (n : ℕ) : CodePoint := if n < 10 then Fin.ofNat _ (48 + n) else Fin.ofNat _ (87 + n)

abbrev Bytes := List UInt8

def isSurrogate (c : CodePoint) : Bool := 0xD800 ≤ c.val && c.val ≤ 0xDFFF

/-- The UTF-8 bytes of one code point; `none` on a surrogate. -/
def encodePoint (c : CodePoint) : Option Bytes :=
  let n := c.val
  if isSurrogate c then none
  else if n < 0x80 then some [UInt8.ofNat n]
  else if n < 0x800 then some [UInt8.ofNat (0xC0 + n / 64), UInt8.ofNat (0x80 + n % 64)]
  else if n < 0x10000 then
    some [UInt8.ofNat (0xE0 + n / 4096), UInt8.ofNat (0x80 + n / 64 % 64),
      UInt8.ofNat (0x80 + n % 64)]
  else
    some [UInt8.ofNat (0xF0 + n / 262144), UInt8.ofNat (0x80 + n / 4096 % 64),
      UInt8.ofNat (0x80 + n / 64 % 64), UInt8.ofNat (0x80 + n % 64)]

/-- `s.encode("utf-8")`; `none` stands for `UnicodeEncodeError`. -/
def encodeUtf8 : PyStr → Option Bytes
  | [] => some []
  | c :: s => do
      let b ← encodePoint c
      let bs ← encodeUtf8 s
      some (b ++ bs)

/-- The continuation bytes a lead byte asks for, the range of the first of them and
the payload of the lead. -/
def leadByte (b : ℕ) : Option (ℕ × ℕ × ℕ × ℕ) :=
  if 0xC2 ≤ b && b ≤ 0xDF then some (1, 0x80, 0xBF, b - 0xC0)
  else if b == 0xE0 then some (2, 0xA0, 0xBF, 0)
  else if b == 0xED then some (2, 0x80, 0x9F, 13)
  else if 0xE1 ≤ b && b ≤ 0xEF then some (2, 0x80, 0xBF, b - 0xE0)
  else if b == 0xF0 then some (3, 0x90, 0xBF, 0)
  else if 0xF1 ≤ b && b ≤ 0xF3 then some (3, 0x80, 0xBF, b - 0xF0)
  else if b == 0xF4 then some (3, 0x80, 0x8F, 4)
  else none

def replacement : CodePoint := 0xFFFD

/-- `bytes.decode("utf-8", errors="replace")`. The open sequence is `(left, lo, hi, acc)`;
a byte outside the range closes it with one replacement character and is read afresh. -/
def decodeFrom : Option (ℕ × ℕ × ℕ × ℕ) → Bytes → PyStr
  | none, [] => []
  | some _, [] => [replacement]
  | st, b :: bs =>
      let n := b.toNat
      let fresh : Unit → PyStr := fun _ =>
        if n < 0x80 then Fin.ofNat _ n :: decodeFrom none bs
        else match leadByte n with
          | some q => decodeFrom (some q) bs
          | none => replacement :: decodeFrom none bs
      match st with
      | none => fresh ()
      | some (left, lo, hi, acc) =>
          if lo ≤ n && n ≤ hi then
            let acc' := acc * 64 + n % 64
            if left == 1 then Fin.ofNat _ acc' :: decodeFrom none bs
            else decodeFrom (some (left - 1, 0x80, 0xBF, acc')) bs
          else replacement :: fresh ()

def decodeUtf8 (bs : Bytes) : PyStr := decodeFrom none bs

lemma toNat_lt (c : Char) : c.toNat < 0x110000 := by
  have h := c.valid
  rw [← Char.toNat_val]
  simp only [UInt32.isValidChar, Nat.isValidChar] at h
  omega

@[simp] lemma cp_inj (a b : Char) : cp a = cp b ↔ a = b := by
  simp [cp, Fin.ofNat, Fin.ext_iff, Nat.mod_eq_of_lt (toNat_lt a), Nat.mod_eq_of_lt (toNat_lt b),
    Char.toNat_inj]

@[simp] lemma py_inj {a b : String} : py a = py b ↔ a = b := by
  rw [py, py, List.map_inj_right fun a b h => (cp_inj a b).mp h, String.toList_inj]

lemma py_append (a b : String) : py (a ++ b) = py a ++ py b := by
  rw [py, String.toList_append, List.map_append]
  rfl

lemma py_ofList (l : List Char) : py (String.ofList l) = l.map cp := by
  rw [py, String.toList_ofList]

lemma startswith_iff (s p : PyStr) : startswith s p = true ↔ p <+: s := List.isPrefixOf_iff_prefix

lemma contains_iff (p s : PyStr) : contains p s = true ↔ p <:+: s := by
  induction s with
  | nil => rw [contains, List.isEmpty_iff, List.infix_nil]
  | cons c s ih => rw [contains, Bool.or_eq_true, startswith_iff, ih, List.infix_cons_iff]

lemma drop_length_takeWhile {α : Type*} (p : α → Bool) (s : List α) :
    s.drop (s.takeWhile p).length = s.dropWhile p := by
  have hsplit := congrArg (List.drop (s.takeWhile p).length) (List.takeWhile_append_dropWhile (p := p) (l := s))
  rwa [List.drop_left, eq_comm] at hsplit

@[simp] lemma startswith_append (p s : PyStr) : startswith (p ++ s) p = true := by
  simp [startswith_iff]

lemma cut_append_eq {sep s a b : PyStr} (h : cut sep s = some (a, b)) : s = a ++ sep ++ b := by
  induction s generalizing a b with
  | nil =>
    rw [cut] at h
    split_ifs at h with hsep
    obtain ⟨rfl, rfl⟩ := Prod.mk.inj (Option.some.inj h)
    simp [hsep]
  | cons c s ih =>
    rw [cut] at h
    split_ifs at h with hstart
    · obtain ⟨rfl, rfl⟩ := Prod.mk.inj (Option.some.inj h)
      obtain ⟨t, ht⟩ := (startswith_iff _ _).mp hstart
      rw [← ht]
      simp
    · obtain ⟨⟨a', b'⟩, hcut, heq⟩ := Option.map_eq_some_iff.mp h
      obtain ⟨rfl, rfl⟩ := Prod.mk.inj heq
      rw [ih hcut]
      rfl

lemma cut_first (sep a b : PyStr) : ∃ a' b', cut sep (a ++ sep ++ b) = some (a', b') ∧ a'.length ≤ a.length := by
  induction a with
  | nil =>
    cases hs : sep ++ b with
    | nil =>
      obtain ⟨rfl, rfl⟩ := List.append_eq_nil_iff.mp hs
      exact ⟨[], [], rfl, le_rfl⟩
    | cons c s =>
      refine ⟨[], (c :: s).drop sep.length, ?_, le_rfl⟩
      rw [List.nil_append, hs, cut, if_pos ((startswith_iff _ _).mpr ⟨b, hs⟩)]
  | cons c a ih =>
    obtain ⟨a', b', hcut, hle⟩ := ih
    rw [List.cons_append, List.cons_append, cut]
    split_ifs
    · exact ⟨[], _, rfl, by simp⟩
    · exact ⟨c :: a', b', by rw [hcut]; rfl, by simpa using hle⟩

lemma cut_min {sep s a b a' b' : PyStr} (h : cut sep s = some (a, b)) (hs : s = a' ++ sep ++ b') :
    a.length ≤ a'.length := by
  obtain ⟨x, y, hcut, hle⟩ := cut_first sep a' b'
  rw [← hs, h] at hcut
  rwa [(Prod.mk.inj (Option.some.inj hcut)).1]

lemma cut_eq_some_iff {sep s a b : PyStr} :
    cut sep s = some (a, b) ↔ s = a ++ sep ++ b ∧ ∀ a' b', s = a' ++ sep ++ b' → a.length ≤ a'.length := by
  constructor
  · exact fun h => ⟨cut_append_eq h, fun a' b' => cut_min h⟩
  · rintro ⟨hs, hmin⟩
    obtain ⟨x, y, hcut, hle⟩ := cut_first sep a b
    rw [← hs] at hcut
    have hxy := cut_append_eq hcut
    have hlen : a.length = x.length := le_antisymm (hmin x y hxy) hle
    rw [hs, List.append_assoc, List.append_assoc] at hxy
    obtain ⟨rfl, hrest⟩ := List.append_inj hxy hlen
    rw [hcut, List.append_cancel_left hrest]

lemma cut_eq_none_iff {sep s : PyStr} : cut sep s = none ↔ ¬sep <:+: s := by
  constructor
  · rintro h ⟨a, b, rfl⟩
    obtain ⟨x, y, hcut, -⟩ := cut_first sep a b
    rw [hcut] at h
    simp at h
  · intro h
    cases hcut : cut sep s with
    | none => rfl
    | some p => exact absurd ⟨p.1, p.2, (cut_append_eq hcut).symm⟩ h

lemma isSpace_of_isLineBreak {c : CodePoint} (h : isLineBreak c = true) : isSpace c = true := by
  simp only [isLineBreak, isSpace, Bool.or_eq_true, Bool.and_eq_true, decide_eq_true_eq,
    beq_iff_eq] at h ⊢
  omega

lemma isBlank_iff (s : PyStr) : isBlank s = true ↔ ∀ c ∈ s, isSpace c = true := by
  rw [isBlank, List.isEmpty_iff, strip, rstrip, List.rdropWhile_eq_nil_iff, lstrip]
  constructor
  · intro h
    by_contra hne
    cases hd : s.dropWhile isSpace with
    | nil => exact hne (List.dropWhile_eq_nil_iff.mp hd)
    | cons c t =>
      have hc := List.head?_dropWhile_not isSpace s
      rw [hd] at hc h
      simp [h c (by simp)] at hc
  · intro h c hc
    exact h c ((List.dropWhile_suffix isSpace).subset hc)

lemma rstrip_append_spaces {s b : PyStr} (hb : ∀ c ∈ b, isSpace c = true) : rstrip (s ++ b) = rstrip s := by
  have hnil : b.reverse.dropWhile isSpace = [] :=
    List.dropWhile_eq_nil_iff.mpr fun c hc => hb c (List.mem_reverse.mp hc)
  rw [rstrip, rstrip, List.rdropWhile, List.rdropWhile, List.reverse_append, List.dropWhile_append, hnil]
  rfl

lemma strip_rstrip (s : PyStr) : strip (rstrip s) = strip s := by
  have hb : ∀ c ∈ s.rtakeWhile isSpace, isSpace c = true := fun c hc => List.mem_rtakeWhile_imp hc
  have hs : s = rstrip s ++ s.rtakeWhile isSpace := (List.rdropWhile_append_rtakeWhile ..).symm
  conv_rhs => rw [hs, strip, lstrip, List.dropWhile_append]
  split_ifs with hnil
  · rw [strip, lstrip, List.isEmpty_iff.mp hnil, List.dropWhile_eq_nil_iff.mpr hb]
  · rw [rstrip_append_spaces hb, strip, lstrip]

lemma rstrip_append {p : PyStr} (hp : rstrip p = p) (s : PyStr) : rstrip (p ++ s) = p ++ rstrip s := by
  rw [rstrip, List.rdropWhile, List.reverse_append, List.dropWhile_append]
  split_ifs with hnil
  · have hs : rstrip s = [] := by rw [rstrip, List.rdropWhile, List.isEmpty_iff.mp hnil]; rfl
    rw [hs, List.append_nil]
    exact hp
  · rw [List.reverse_append, List.reverse_reverse]
    rfl

lemma splitlinesFrom_line (line rest : PyStr) (cur : PyStr) {b : CodePoint}
    (h : ∀ c ∈ line, isLineBreak c = false) (hb : isLineBreak b = true) (hr : b ≠ cp '\r') :
    splitlinesFrom false cur (line ++ b :: rest) = (cur.reverse ++ line) :: splitlines rest := by
  induction line generalizing cur with
  | nil =>
    have hr' : (b == cp '\r') = false := by simpa using hr
    simp [splitlinesFrom, splitlines, hb, hr']
  | cons c line ih =>
    have hc := h c (by simp)
    simp only [List.cons_append, splitlinesFrom, Bool.false_and, Bool.false_eq_true, if_false, hc]
    rw [ih (c :: cur) fun d hd => h d (by simp [hd])]
    simp

lemma splitlines_line (line rest : PyStr) {b : CodePoint} (h : ∀ c ∈ line, isLineBreak c = false)
    (hb : isLineBreak b = true) (hr : b ≠ cp '\r') :
    splitlines (line ++ b :: rest) = line :: splitlines rest := by
  rw [splitlines, splitlinesFrom_line line rest [] h hb hr]
  rfl

end AgentTrajectory.PyText
