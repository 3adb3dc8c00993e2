import AgentTrajectory.PyJsonRoundtrip

/-! Which texts and which values can be encoded: a string holds no lone surrogate, and the
text of a value can be encoded exactly when all of its strings can. -/
namespace AgentTrajectory.PyJson
open PyText PyDict

def scalars (s : PyStr) : Bool := s.all fun c => !isSurrogate c

@[simp] lemma scalars_nil : scalars [] = true := rfl

@[simp] lemma scalars_append (s t : PyStr) : scalars (s ++ t) = (scalars s && scalars t) := by
  simp [scalars]

@[simp] lemma scalars_cons (c : CodePoint) (s : PyStr) :
    scalars (c :: s) = (!isSurrogate c && scalars s) := by
  simp [scalars]

lemma encodePoint_isSome (c : CodePoint) : (encodePoint c).isSome = !isSurrogate c := by
  by_cases h : isSurrogate c = true
  · simp [encodePoint, h]
  · simp only [encodePoint, h, Bool.false_eq_true, if_false, Bool.not_false]
    split_ifs <;> rfl

theorem encodeUtf8_isSome (s : PyStr) : (encodeUtf8 s).isSome = scalars s := by
  induction s with
  | nil => rfl
  | cons c s ih =>
    rw [scalars_cons, ← encodePoint_isSome, ← ih]
    simp only [encodeUtf8]
    cases encodePoint c <;> cases encodeUtf8 s <;> rfl

def Completes (acc : ℕ) : Prop := (acc < 0x360 ∨ 0x380 ≤ acc) ∧ acc < 0x4400

def SafeOpen : Option (ℕ × ℕ × ℕ × ℕ) → Prop
  | none => True
  | some (1, _, _, acc) => Completes acc
  | some (2, lo, hi, acc) => ∀ n, lo ≤ n → n ≤ hi → Completes (acc * 64 + n % 64)
  | some (3, lo, hi, acc) => ∀ n m, lo ≤ n → n ≤ hi → Completes ((acc * 64 + n % 64) * 64 + m % 64)
  | some _ => False

lemma safeOpen_leadByte {b : ℕ} {q : ℕ × ℕ × ℕ × ℕ} (h : leadByte b = some q) : SafeOpen (some q) := by
  simp only [leadByte] at h
  split_ifs at h with h1 h2 h3 h4 h5 h6 h7
  all_goals obtain rfl := Option.some.inj h
  all_goals simp only [Bool.and_eq_true, decide_eq_true_eq, beq_iff_eq] at *
  all_goals simp only [SafeOpen, Completes]
  all_goals omega

lemma isSurrogate_ofNat {acc k : ℕ} (h : Completes acc) (hk : k < 64) :
    isSurrogate (Fin.ofNat 0x110000 (acc * 64 + k)) = false := by
  have hlt : acc * 64 + k < 0x110000 := by
    have := h.2
    omega
  simp only [isSurrogate, Fin.ofNat, Nat.mod_eq_of_lt hlt, Bool.and_eq_false_iff,
    decide_eq_false_iff_not]
  rcases h.1 with h | h <;> omega

lemma scalars_decodeFrom {st : Option (ℕ × ℕ × ℕ × ℕ)} (h : SafeOpen st) (bs : Bytes) :
    scalars (decodeFrom st bs) = true := by
  have hrep : isSurrogate replacement = false := by decide
  induction bs generalizing st with
  | nil => cases st <;> simp [decodeFrom, hrep]
  | cons b bs ih =>
    have hfresh : scalars (decodeFrom none (b :: bs)) = true := by
      have hnone : scalars (decodeFrom none bs) = true := ih (show SafeOpen none from trivial)
      rw [decodeFrom]
      dsimp only
      split_ifs with hb
      · have hs : isSurrogate (Fin.ofNat 0x110000 b.toNat) = false := by
          have : b.toNat < 0x110000 := by omega
          simp only [isSurrogate, Fin.ofNat, Nat.mod_eq_of_lt this, Bool.and_eq_false_iff,
            decide_eq_false_iff_not]
          omega
        rw [scalars_cons, hs, hnone]
        rfl
      · cases hl : leadByte b.toNat with
        | none => simp [hrep, hnone]
        | some q => exact ih (safeOpen_leadByte hl)
    cases st with
    | none => exact hfresh
    | some q =>
      obtain ⟨left, lo, hi, acc⟩ := q
      rw [decodeFrom]
      dsimp only
      by_cases hin : (decide (lo ≤ b.toNat) && decide (b.toNat ≤ hi)) = true
      · rw [if_pos hin]
        split_ifs with hleft
        · obtain rfl : left = 1 := by simpa using hleft
          rw [scalars_cons, isSurrogate_ofNat h (Nat.mod_lt _ (by omega)),
            ih (show SafeOpen none from trivial)]
          rfl
        · simp only [Bool.and_eq_true, decide_eq_true_eq] at hin
          refine ih ?_
          rcases left with _ | _ | _ | _ | left
          · exact h.elim
          · exact absurd rfl hleft
          · exact h b.toNat hin.1 hin.2
          · exact fun n _ _ => h b.toNat n hin.1 hin.2
          · exact h.elim
      · rw [if_neg hin, scalars_cons, hrep, Bool.not_false, Bool.true_and]
        exact hfresh

theorem scalars_decodeUtf8 (bs : Bytes) : scalars (decodeUtf8 bs) = true :=
  scalars_decodeFrom (show SafeOpen none from trivial) bs

lemma scalars_of_ascii {s : PyStr} (h : ∀ c ∈ s, c.val < 128) : scalars s = true := by
  simp only [scalars, List.all_eq_true, Bool.not_eq_true']
  intro c hc
  have := h c hc
  simp [isSurrogate]
  omega

lemma scalars_escapePoint (c : CodePoint) : scalars (escapePoint c) = !isSurrogate c := by
  by_cases hs : isSurrogate c = true
  · have hv : 0xD800 ≤ c.val := by simp [isSurrogate] at hs; omega
    have hq : c ≠ cp '"' := fun h => by simp [h, cp] at hv
    have hb : c ≠ cp '\\' := fun h => by simp [h, cp] at hv
    have he : escapePoint c = [c] := by
      unfold escapePoint
      rw [if_neg hq, if_neg hb, if_neg (by omega), if_neg (by omega), if_neg (by omega),
        if_neg (by omega), if_neg (by omega), if_neg (by omega)]
    simp [he]
  · simp only [Bool.not_eq_true] at hs
    unfold escapePoint
    split_ifs with h1 h2 h3 h4 h5 h6 h7 h8
    · rw [hs]; decide
    · rw [hs]; decide
    · rw [hs]; decide
    · rw [hs]; decide
    · rw [hs]; decide
    · rw [hs]; decide
    · rw [hs]; decide
    · have hd : ∀ d < 16, isSurrogate (hexDigit d) = false := by decide
      simp [hd (c.val / 16) (by omega), hd (c.val % 16) (by omega), hs,
        show scalars (py "\\u00") = true by decide]
    · simp

@[simp] lemma scalars_dumpsStr (s : PyStr) : scalars (dumpsStr s) = scalars s := by
  have h : scalars (s.flatMap escapePoint) = scalars s := by
    induction s with
    | nil => rfl
    | cons c s ih => simp [scalars_escapePoint, ih]
  simp [dumpsStr, h, show isSurrogate (cp '"') = false by decide]

lemma scalars_number {s : PyStr} (h : ∀ c ∈ s, isNumberChar c = true) : scalars s = true := by
  refine scalars_of_ascii fun c hc => ?_
  have := h c hc
  simp only [isNumberChar, isDigit, Bool.or_eq_true, beq_iff_eq] at this
  rcases this with ((((hd | rfl) | rfl) | rfl) | rfl) | rfl
  · simp only [Bool.and_eq_true, decide_eq_true_eq] at hd
    omega
  all_goals decide

lemma scalars_floatLit {lit : PyStr} (h : floatLit lit = true) : scalars lit = true := by
  simp only [floatLit, Bool.or_eq_true, beq_iff_eq, Bool.and_eq_true, List.all_eq_true] at h
  rcases h with ((rfl | rfl) | rfl) | ⟨hc, -⟩
  · decide
  · decide
  · decide
  · exact scalars_number hc

namespace Json

/-! Every text of the value, keys included, holds no surrogate. -/
mutual
def unicode : Json → Bool
  | .float lit => scalars lit
  | .str s => scalars s
  | .arr xs => unicodeItems xs
  | .obj kvs => unicodePairs kvs
  | _ => true
def unicodeItems : List Json → Bool
  | [] => true
  | x :: xs => unicode x && unicodeItems xs
def unicodePairs : List (PyStr × Json) → Bool
  | [] => true
  | (k, x) :: kvs => scalars k && unicode x && unicodePairs kvs
end

lemma unicodeItems_iff (xs : List Json) : unicodeItems xs = true ↔ ∀ x ∈ xs, unicode x = true := by
  induction xs with
  | nil => simp [unicodeItems]
  | cons x xs ih => simp [unicodeItems, ih]

lemma unicodePairs_iff (kvs : List (PyStr × Json)) :
    unicodePairs kvs = true ↔ ∀ kv ∈ kvs, scalars kv.1 = true ∧ unicode kv.2 = true := by
  induction kvs with
  | nil => simp [unicodePairs]
  | cons kv kvs ih => simp [unicodePairs, ih]

end Json
open Json

lemma scalars_dumpsItems {xs : List Json} (h : ∀ x ∈ xs, scalars (dumps x) = unicode x) :
    scalars (dumpsItems xs) = unicodeItems xs := by
  induction xs with
  | nil => decide
  | cons x xs ih =>
    simp [dumpsItems, unicodeItems, h x (by simp), ih fun y hy => h y (by simp [hy]),
      show scalars (py ", ") = true by decide]

lemma scalars_dumpsPairs {kvs : List (PyStr × Json)}
    (h : ∀ kv ∈ kvs, scalars (dumps kv.2) = unicode kv.2) :
    scalars (dumpsPairs kvs) = unicodePairs kvs := by
  induction kvs with
  | nil => decide
  | cons kv kvs ih =>
    simp [dumpsPairs, unicodePairs, h kv (by simp), ih fun y hy => h y (by simp [hy]),
      show scalars (py ", ") = true by decide, show scalars (py ": ") = true by decide,
      Bool.and_assoc]

theorem scalars_dumps (v : Json) : scalars (dumps v) = v.unicode := by
  induction v using Json.ind with
  | null => decide
  | bool b => cases b <;> decide
  | int n => simpa [dumps, unicode] using scalars_number (dumpsInt_chars n)
  | float lit => simp [dumps, unicode]
  | str s => simp [dumps, unicode]
  | arr xs ih =>
    cases xs with
    | nil => decide
    | cons x xs =>
      have hi := scalars_dumpsItems fun y hy => ih y (List.mem_cons_of_mem _ hy)
      simp [dumps, unicode, unicodeItems, ih x (by simp), hi,
        show isSurrogate (cp '[') = false by decide]
  | obj kvs ih =>
    cases kvs with
    | nil => decide
    | cons kv kvs =>
      have hi := scalars_dumpsPairs fun y hy => ih y (List.mem_cons_of_mem _ hy)
      simp [dumps, unicode, unicodePairs, ih kv (by simp), hi,
        show isSurrogate (cp '{') = false by decide, show scalars (py ": ") = true by decide,
        Bool.and_assoc]

lemma unicode_getNone {d : Dict PyStr Json} (h : (Json.obj d).unicode = true) (k : PyStr) :
    (getNone d k).unicode = true := by
  rw [getNone]
  cases hg : get? d k with
  | none => rfl
  | some v =>
    simp only [unicode] at h
    exact ((unicodePairs_iff d).mp h (k, v) (mem_of_get? hg)).2

lemma unicode_canon (v : Json) : v.canon.unicode = v.unicode := by
  induction v using Json.ind with
  | arr xs ih =>
    rw [Bool.eq_iff_iff]
    simp only [canon, unicode, unicodeItems_iff, canonItems_eq_map, List.forall_mem_map]
    exact forall₂_congr fun x hx => by rw [ih x hx]
  | obj kvs ih =>
    rw [Bool.eq_iff_iff]
    simp only [canon, unicode, unicodePairs_iff, (sortPairs_perm _).mem_iff, canonPairs_eq_map,
      List.forall_mem_map]
    exact forall₂_congr fun kv hkv => by rw [ih kv hkv]
  | _ => rfl

theorem scalars_dumpsSorted (v : Json) : scalars v.dumpsSorted = v.unicode := by
  rw [dumpsSorted, scalars_dumps, unicode_canon]

end AgentTrajectory.PyJson
