import AgentTrajectory.PyJson
import AgentTrajectory.PyLines

/-! `loads` inverts `dumps` on values whose float literals are literals and whose objects
have distinct keys; hence `dumps` is injective on them, and `dumpsSorted` separates values
exactly up to the order of keys. -/
namespace AgentTrajectory.PyJson
open PyText PyDict

variable {c : CodePoint} {v : Json}

/-- The literals `repr` gives a float. -/
def floatLit (lit : PyStr) : Bool :=
  lit == py "NaN" || lit == py "Infinity" || lit == py "-Infinity" ||
    (lit.all isNumberChar && numberOf lit == some (.float lit))

namespace Json

/-! What a parsed value always satisfies: distinct keys and genuine float literals. -/
mutual
def wf : Json → Bool
  | .float lit => floatLit lit
  | .arr xs => wfItems xs
  | .obj kvs => decide (keys kvs).Nodup && wfPairs kvs
  | _ => true
def wfItems : List Json → Bool
  | [] => true
  | x :: xs => wf x && wfItems xs
def wfPairs : List (PyStr × Json) → Bool
  | [] => true
  | (_, x) :: kvs => wf x && wfPairs kvs
end

lemma wfItems_iff (xs : List Json) : wfItems xs = true ↔ ∀ x ∈ xs, wf x = true := by
  induction xs with
  | nil => simp [wfItems]
  | cons x xs ih => simp [wfItems, ih]

lemma wfPairs_iff (kvs : List (PyStr × Json)) : wfPairs kvs = true ↔ ∀ kv ∈ kvs, wf kv.2 = true := by
  induction kvs with
  | nil => simp [wfPairs]
  | cons kv kvs ih => simp [wfPairs, ih]

end Json

lemma hexValue_hexDigit : ∀ d < 16, hexValue (hexDigit d) = some d := by decide

lemma scanString_unescape {e x : CodePoint} (he : e ≠ cp 'u') (hx : unescape e = some x)
    (t : PyStr) :
    scanString none (cp '\\' :: e :: t) = (scanString none t).map fun p => (x :: p.1, p.2) := by
  rw [scanString.eq_def]
  simp [show cp '\\' ≠ cp '"' by decide, he, hx]

lemma scanString_raw (hq : c ≠ cp '"') (hb : c ≠ cp '\\') (hc : ¬ c.val < 32)
    (t : PyStr) : scanString none (c :: t) = (scanString none t).map fun p => (c :: p.1, p.2) := by
  rw [scanString.eq_def]
  simp [hq, hb, hc]

lemma scanString_control (hc : c.val < 32) (t : PyStr) :
    scanString none (py "\\u00" ++ [hexDigit (c.val / 16), hexDigit (c.val % 16)] ++ t) =
      (scanString none t).map fun p => (c :: p.1, p.2) := by
  have ha := hexValue_hexDigit (c.val / 16) (by omega)
  have hb := hexValue_hexDigit (c.val % 16) (by omega)
  have hu : c.val / 16 * 16 + c.val % 16 = c.val := by omega
  have hlow : isLow c.val = false := by simp [isLow]; omega
  have hhigh : isHigh c.val = false := by simp [isHigh]; omega
  rw [show py "\\u00" = [cp '\\', cp 'u', cp '0', cp '0'] by decide]
  simp only [List.cons_append, List.nil_append]
  rw [scanString.eq_def]
  simp [show cp '\\' ≠ cp '"' by decide, show hexValue (cp '0') = some 0 by decide,
    ha, hb, hu, hlow, hhigh]

lemma scanString_escapePoint (c : CodePoint) (t : PyStr) : scanString none (escapePoint c ++ t) =
      (scanString none t).map fun p => (c :: p.1, p.2) := by
  unfold escapePoint
  split_ifs with h1 h2 h3 h4 h5 h6 h7 h8
  · subst h1
    exact scanString_unescape (by decide) (by decide) t
  · subst h2
    exact scanString_unescape (by decide) (by decide) t
  · obtain rfl : c = 8 := Fin.ext h3
    exact scanString_unescape (by decide) (by decide) t
  · obtain rfl : c = 9 := Fin.ext h4
    exact scanString_unescape (by decide) (by decide) t
  · obtain rfl : c = 10 := Fin.ext h5
    exact scanString_unescape (by decide) (by decide) t
  · obtain rfl : c = 12 := Fin.ext h6
    exact scanString_unescape (by decide) (by decide) t
  · obtain rfl : c = 13 := Fin.ext h7
    exact scanString_unescape (by decide) (by decide) t
  · exact scanString_control h8 t
  · exact scanString_raw h1 h2 h8 t

lemma scanString_dumps (s t : PyStr) :
    scanString none (s.flatMap escapePoint ++ cp '"' :: t) = some (s, t) := by
  induction s with
  | nil =>
    rw [List.flatMap_nil, List.nil_append, scanString.eq_def]
    simp
  | cons c s ih =>
    rw [List.flatMap_cons, List.append_assoc, scanString_escapePoint, ih]
    rfl

lemma natDigits_isDigit (n : ℕ) : ∀ c ∈ natDigits n, isDigit c = true := by
  unfold natDigits
  split_ifs with h
  · rw [show py "0" = [cp '0'] by decide, List.forall_mem_singleton]
    decide
  · intro c hc
    obtain ⟨d, hd, rfl⟩ := List.mem_map.mp hc
    have hlt := Nat.digits_lt_base (by norm_num) (List.mem_reverse.mp hd)
    interval_cases d <;> decide

lemma isDigit_of_isSpace (h : isSpace c = true) : isDigit c = false := by
  by_contra hd
  simp only [Bool.not_eq_false, isDigit, isSpace, Bool.or_eq_true, Bool.and_eq_true,
    decide_eq_true_eq, beq_iff_eq] at h hd
  omega

lemma oneLine_natDigits (n : ℕ) : oneLine (natDigits n) = true := by
  rw [oneLine, List.all_eq_true]
  intro c hc
  have hdigit := natDigits_isDigit n c hc
  by_contra hbreak
  have hspace := isSpace_of_isLineBreak (by simpa using hbreak)
  rw [isDigit_of_isSpace hspace] at hdigit
  exact absurd hdigit (by simp)

lemma natDigits_ne_nil (n : ℕ) : natDigits n ≠ [] := by
  unfold natDigits
  split_ifs with h
  · decide
  · simpa using Nat.digits_ne_nil_iff_ne_zero.mpr h

lemma digitsValue_append_map (ds : List ℕ) (h : ∀ d ∈ ds, d < 10) (a : ℕ) :
    (ds.map fun d => (Fin.ofNat 0x110000 (48 + d) : CodePoint)).foldl
      (fun n c => n * 10 + (c.val - 48)) a = ds.foldl (fun n d => n * 10 + d) a := by
  induction ds generalizing a with
  | nil => rfl
  | cons d ds ih =>
    have hd := h d (by simp)
    have hv : (Fin.ofNat 0x110000 (48 + d)).val - 48 = d := by
      simp only [Fin.ofNat]
      omega
    simp only [List.map_cons, List.foldl_cons, hv]
    exact ih (fun e he => h e (by simp [he])) _

lemma foldl_digits (ds : List ℕ) :
    ds.reverse.foldl (fun n d => n * 10 + d) 0 = Nat.ofDigits 10 ds := by
  induction ds with
  | nil => rfl
  | cons d ds ih =>
    simp only [List.reverse_cons, List.foldl_append, List.foldl_cons, List.foldl_nil, ih,
      Nat.ofDigits_cons]
    ring

lemma digitsValue_natDigits (n : ℕ) : digitsValue (natDigits n) = n := by
  unfold natDigits
  split_ifs with h
  · subst h; decide
  · have hlt : ∀ d ∈ (Nat.digits 10 n).reverse, d < 10 := fun d hd =>
      Nat.digits_lt_base (by norm_num) (List.mem_reverse.mp hd)
    rw [digitsValue, digitsValue_append_map _ hlt, foldl_digits, Nat.ofDigits_digits]

lemma natDigits_head (n : ℕ) (h : n ≠ 0) : (natDigits n).head? ≠ some (cp '0') := by
  have hne : Nat.digits 10 n ≠ [] := Nat.digits_ne_nil_iff_ne_zero.mpr h
  have hlast := Nat.getLast_digit_ne_zero 10 h
  have hlt : (Nat.digits 10 n).getLast hne < 10 :=
    Nat.digits_lt_base (by norm_num) (List.getLast_mem hne)
  simp only [natDigits, if_neg h, List.head?_map, List.head?_reverse, List.getLast?_eq_getLast_of_ne_nil hne,
    Option.map_some, ne_eq, Option.some.injEq]
  generalize (Nat.digits 10 n).getLast hne = d at hlast hlt
  interval_cases d <;> first | exact absurd rfl hlast | decide

lemma natDigits_leading (n : ℕ) :
    ((natDigits n).length != 1 && (natDigits n).head? = some (cp '0')) = false := by
  by_cases h : n = 0
  · subst h; decide
  · simp [natDigits_head n h]

lemma takeWhile_all {α : Type*} {p : α → Bool} {s r : List α} (h : ∀ c ∈ s, p c = true)
    (hr : ∀ c ∈ r.head?, p c = false) :
    (s ++ r).takeWhile p = s ∧ (s ++ r).dropWhile p = r := by
  induction s with
  | nil =>
    cases r with
    | nil => simp
    | cons c r =>
      have hc := hr c (by simp)
      simp [hc]
  | cons c s ih =>
    have hc := h c (by simp)
    have := ih fun d hd => h d (by simp [hd])
    simp [hc, this]

lemma numberOf_natDigits (n : ℕ) : numberOf (natDigits n) = some (.int n) := by
  have hd := natDigits_isDigit n
  have hw := takeWhile_all (r := []) hd (by simp)
  simp only [List.append_nil] at hw
  have hneg : (natDigits n).head? ≠ some (cp '-') := by
    intro h
    have := hd (cp '-') (List.mem_of_mem_head? h)
    revert this
    decide
  have hemp : (natDigits n).isEmpty = false := by simpa using natDigits_ne_nil n
  simp [numberOf, hneg, hw.1, hw.2, natDigits_leading, hemp, digitsValue_natDigits]

lemma numberOf_neg (n : ℕ) : numberOf (cp '-' :: natDigits n) = some (.int (-n)) := by
  have hw := takeWhile_all (r := []) (natDigits_isDigit n) (by simp)
  simp only [List.append_nil] at hw
  have hemp : (natDigits n).isEmpty = false := by simpa using natDigits_ne_nil n
  simp [numberOf, hw.1, hw.2, natDigits_leading, hemp, digitsValue_natDigits]

lemma numberOf_dumpsInt (n : ℤ) : numberOf (dumpsInt n) = some (.int n) := by
  unfold dumpsInt
  split_ifs with h
  · rw [numberOf_neg]
    congr 2
    omega
  · rw [numberOf_natDigits]
    congr 2
    omega

lemma dumpsInt_chars (n : ℤ) : ∀ c ∈ dumpsInt n, isNumberChar c = true := by
  have hd : ∀ c ∈ natDigits n.natAbs, isNumberChar c = true := fun c hc => by
    simp [isNumberChar, natDigits_isDigit _ c hc]
  unfold dumpsInt
  split_ifs with h
  · exact List.forall_mem_cons.mpr ⟨by decide, hd⟩
  · exact hd

def Follow (r : PyStr) : Prop := ∀ c ∈ r.head?, isNumberChar c = false

lemma follow_nil : Follow [] := by simp [Follow]

lemma follow_cons (h : isNumberChar c = false) (r : PyStr) : Follow (c :: r) := by
  simpa [Follow] using h

lemma not_startswith_of_number {tok r : PyStr} {w : PyStr} (hne : tok ≠ [])
    (h : ∀ d ∈ tok, isNumberChar d = true) (hc : isNumberChar c = false) :
    startswith (tok ++ r) (c :: w) = false := by
  cases tok with
  | nil => exact absurd rfl hne
  | cons d tok =>
    have hd := h d (by simp)
    have hcd : c ≠ d := by rintro rfl; simp [hc] at hd
    simp [startswith, List.isPrefixOf, hcd]

lemma scanAtom_number {tok r : PyStr} (hne : tok ≠ [])
    (h : ∀ d ∈ tok, isNumberChar d = true) (hr : Follow r) (hv : numberOf tok = some v) :
    scanAtom (tok ++ r) = some (v, r) := by
  have hw := takeWhile_all h hr
  have hn := not_startswith_of_number (r := r) (w := py "ull") hne h (show isNumberChar (cp 'n') = false by decide)
  have ht := not_startswith_of_number (r := r) (w := py "rue") hne h (show isNumberChar (cp 't') = false by decide)
  have hf := not_startswith_of_number (r := r)
    (w := py "alse") hne h (show isNumberChar (cp 'f') = false by decide)
  have hN := not_startswith_of_number (r := r) (w := py "aN") hne h (show isNumberChar (cp 'N') = false by decide)
  have hI := not_startswith_of_number (r := r)
    (w := py "nfinity") hne h (show isNumberChar (cp 'I') = false by decide)
  have hM : startswith (tok ++ r) (py "-Infinity") = false := by
    cases tok with
    | nil => exact absurd rfl hne
    | cons d tok =>
      cases tok with
      | nil =>
        have hd : numberOf [d] = some v := hv
        by_cases hm : cp '-' = d
        · subst hm
          exact absurd hv (by rw [show numberOf [cp '-'] = none by decide]; simp)
        · simp [startswith, show py "-Infinity" = cp '-' :: py "Infinity" by decide, List.isPrefixOf, hm]
      | cons e tok =>
        have he := h e (by simp)
        have : cp 'I' ≠ e := by rintro rfl; revert he; decide
        simp [startswith, show py "-Infinity" = cp '-' :: cp 'I' :: py "nfinity" by decide,
          List.isPrefixOf, this]
  rw [show cp 'n' :: py "ull" = py "null" by decide] at hn
  rw [show cp 't' :: py "rue" = py "true" by decide] at ht
  rw [show cp 'f' :: py "alse" = py "false" by decide] at hf
  rw [show cp 'N' :: py "aN" = py "NaN" by decide] at hN
  rw [show cp 'I' :: py "nfinity" = py "Infinity" by decide] at hI
  simp [scanAtom, hn, ht, hf, hN, hI, hM, hw.1, hw.2, hv]

lemma parseValue_atom {s : PyStr} (n : ℕ) (hq : c ≠ cp '"') (ho : c ≠ cp '{')
    (ha : c ≠ cp '[') : parseValue (n + 1) (c :: s) = scanAtom (c :: s) := by
  simp [parseValue, hq, ho, ha]

lemma number_head {tok : PyStr} (hne : tok ≠ []) (h : ∀ d ∈ tok, isNumberChar d = true) :
    ∃ c t, tok = c :: t ∧ c ≠ cp '"' ∧ c ≠ cp '{' ∧ c ≠ cp '[' ∧ isJsonSpace c = false ∧
      c ≠ cp ']' := by
  cases tok with
  | nil => exact absurd rfl hne
  | cons c t =>
    have hc := h c (by simp)
    refine ⟨c, t, rfl, ?_, ?_, ?_, ?_, ?_⟩
    · rintro rfl; revert hc; decide
    · rintro rfl; revert hc; decide
    · rintro rfl; revert hc; decide
    · by_contra hs
      simp only [isJsonSpace, Bool.not_eq_false, Bool.or_eq_true, beq_iff_eq] at hs
      rcases hs with ((rfl | rfl) | rfl) | rfl <;> revert hc <;> decide
    · rintro rfl; revert hc; decide

lemma parseValue_number {tok r : PyStr} (n : ℕ) (hne : tok ≠ [])
    (h : ∀ d ∈ tok, isNumberChar d = true) (hr : Follow r) (hv : numberOf tok = some v) :
    parseValue (n + 1) (tok ++ r) = some (v, r) := by
  obtain ⟨c, t, rfl, hq, ho, ha, -⟩ := number_head hne h
  rw [List.cons_append, parseValue_atom n hq ho ha, ← List.cons_append]
  exact scanAtom_number hne h hr hv

lemma dumpsInt_ne_nil (n : ℤ) : dumpsInt n ≠ [] := by
  unfold dumpsInt
  split_ifs
  · simp
  · exact natDigits_ne_nil _

lemma parseValue_float {lit r : PyStr} (n : ℕ) (h : floatLit lit = true) (hr : Follow r) :
    parseValue (n + 1) (lit ++ r) = some (.float lit, r) := by
  simp only [floatLit, Bool.or_eq_true, beq_iff_eq, Bool.and_eq_true, List.all_eq_true] at h
  rcases h with ((rfl | rfl) | rfl) | ⟨hc, hn⟩
  · simp [py, parseValue, scanAtom, startswith, List.isPrefixOf]
  · simp [py, parseValue, scanAtom, startswith, List.isPrefixOf]
  · simp [py, parseValue, scanAtom, startswith, List.isPrefixOf]
  · refine parseValue_number n ?_ hc hr hn
    rintro rfl
    revert hn
    decide

namespace Json

/-! Fuel that parses the text of a value. -/
mutual
def cost : Json → ℕ
  | .arr xs => 1 + costItems xs
  | .obj kvs => 1 + costPairs kvs
  | _ => 1
def costItems : List Json → ℕ
  | [] => 0
  | x :: xs => 1 + cost x + costItems xs
def costPairs : List (PyStr × Json) → ℕ
  | [] => 0
  | (_, x) :: kvs => 1 + cost x + costPairs kvs
end

lemma dumps_head (h : v.wf = true) :
    ∃ c t, dumps v = c :: t ∧ isJsonSpace c = false ∧ c ≠ cp ']' := by
  cases v with
  | null => exact ⟨cp 'n', py "ull", by decide, by decide, by decide⟩
  | bool b =>
    cases b
    · exact ⟨cp 'f', py "alse", by decide, by decide, by decide⟩
    · exact ⟨cp 't', py "rue", by decide, by decide, by decide⟩
  | int n =>
    obtain ⟨c, t, he, hc⟩ := number_head (dumpsInt_ne_nil n) (dumpsInt_chars n)
    exact ⟨c, t, by simpa [dumps] using he, hc.2.2.2⟩
  | float lit =>
    simp only [wf, floatLit, Bool.or_eq_true, beq_iff_eq, Bool.and_eq_true, List.all_eq_true] at h
    rcases h with ((rfl | rfl) | rfl) | ⟨hc, hn⟩
    · exact ⟨cp 'N', py "aN", by decide, by decide, by decide⟩
    · exact ⟨cp 'I', py "nfinity", by decide, by decide, by decide⟩
    · exact ⟨cp '-', py "Infinity", by decide, by decide, by decide⟩
    · have hne : lit ≠ [] := by rintro rfl; revert hn; decide
      obtain ⟨c, t, he, hc⟩ := number_head hne hc
      exact ⟨c, t, by simpa [dumps] using he, hc.2.2.2⟩
  | str s => exact ⟨cp '"', _, rfl, by decide, by decide⟩
  | arr xs => cases xs with
    | nil => exact ⟨cp '[', py "]", by decide, by decide, by decide⟩
    | cons x xs => exact ⟨cp '[', _, rfl, by decide, by decide⟩
  | obj kvs => cases kvs with
    | nil => exact ⟨cp '{', [cp '}'], rfl, by decide, by decide⟩
    | cons kv kvs => exact ⟨cp '{', _, rfl, by decide, by decide⟩

lemma skipWs_dumps (h : v.wf = true) (r : PyStr) : skipWs (dumps v ++ r) = dumps v ++ r := by
  obtain ⟨c, t, he, hs, -⟩ := dumps_head h
  simp [he, skipWs, hs]

end Json

open Json

lemma skipWs_cons (h : isJsonSpace c = false) (s : PyStr) :
    skipWs (c :: s) = c :: s := by
  simp [skipWs, h]

lemma skipWs_space (s : PyStr) : skipWs (cp ' ' :: s) = skipWs s := by
  simp [skipWs, isJsonSpace]

lemma parseItems_dumps (xs : List Json) (x : Json) (n : ℕ) (r : PyStr)
    (hv : ∀ y ∈ x :: xs, ∀ m r, cost y ≤ m → Follow r → parseValue m (dumps y ++ r) = some (y, r))
    (hw : ∀ y ∈ x :: xs, y.wf = true) (hn : costItems (x :: xs) ≤ n) :
    parseItems n (dumps x ++ dumpsItems xs ++ r) = some (x :: xs, r) := by
  induction xs generalizing x n with
  | nil =>
    cases n with
    | zero => simp [costItems] at hn
    | succ n =>
      have hx := hv x (by simp) n (cp ']' :: r) (by simp [costItems] at hn; omega)
        (follow_cons (by decide) r)
      have he : dumps x ++ dumpsItems [] ++ r = dumps x ++ cp ']' :: r := by
        simp [dumpsItems, py]
      rw [he]
      simp [parseItems, hx, skipWs_cons (show isJsonSpace (cp ']') = false by decide)]
  | cons y ys ih =>
    cases n with
    | zero => simp [costItems] at hn
    | succ n =>
      have hx := hv x (by simp) n (cp ',' :: (cp ' ' :: (dumps y ++ dumpsItems ys ++ r)))
        (by simp [costItems] at hn; omega) (follow_cons (by decide) _)
      have he : dumps x ++ dumpsItems (y :: ys) ++ r =
          dumps x ++ cp ',' :: (cp ' ' :: (dumps y ++ dumpsItems ys ++ r)) := by
        simp [dumpsItems, py]
      have hi := ih y n (fun z hz => hv z (by simp [List.mem_cons.mp hz]))
        (fun z hz => hw z (by simp [List.mem_cons.mp hz])) (by simp [costItems] at hn ⊢; omega)
      have hs : skipWs (dumps y ++ dumpsItems ys ++ r) = dumps y ++ dumpsItems ys ++ r := by
        rw [List.append_assoc, skipWs_dumps (hw y (by simp))]
      rw [he, parseItems, hx]
      simp only [skipWs_cons (show isJsonSpace (cp ',') = false by decide), skipWs_space, hs, hi]
      simp

lemma parseKey_dumps (k t : PyStr) (x : Json) (hx : x.wf = true) :
    parseKey (dumpsStr k ++ py ": " ++ dumps x ++ t) = some (k, dumps x ++ t) := by
  have he : dumpsStr k ++ py ": " ++ dumps x ++ t =
      cp '"' :: (k.flatMap escapePoint ++ cp '"' :: (cp ':' :: cp ' ' :: (dumps x ++ t))) := by
    simp [dumpsStr, py]
  rw [he, parseKey, if_pos rfl, scanString_dumps]
  simp only [skipWs_cons (show isJsonSpace (cp ':') = false by decide), skipWs_space,
    skipWs_dumps hx]
  simp

lemma parsePairs_dumps (kvs : List (PyStr × Json)) (k : PyStr) (x : Json) (n : ℕ) (r : PyStr)
    (hv : ∀ y ∈ (k, x) :: kvs, ∀ m r, cost y.2 ≤ m → Follow r →
      parseValue m (dumps y.2 ++ r) = some (y.2, r))
    (hw : ∀ y ∈ (k, x) :: kvs, y.2.wf = true) (hn : costPairs ((k, x) :: kvs) ≤ n) :
    parsePairs n (dumpsStr k ++ py ": " ++ dumps x ++ (dumpsPairs kvs ++ r)) =
      some ((k, x) :: kvs, r) := by
  induction kvs generalizing k x n with
  | nil =>
    cases n with
    | zero => simp [costPairs] at hn
    | succ n =>
      have hc : cost x ≤ n := by simp [costPairs] at hn; omega
      have hx := hv (k, x) (by simp) n (cp '}' :: r) hc (follow_cons (by decide) r)
      rw [parsePairs, parseKey_dumps k _ x (hw (k, x) (by simp))]
      simp only [dumpsPairs, List.cons_append, List.nil_append, hx,
        skipWs_cons (show isJsonSpace (cp '}') = false by decide)]
      simp
  | cons kv kvs ih =>
    obtain ⟨j, y⟩ := kv
    cases n with
    | zero => simp [costPairs] at hn
    | succ n =>
      have hc : cost x ≤ n := by simp [costPairs] at hn; omega
      have hx := hv (k, x) (by simp) n
        (cp ',' :: cp ' ' :: (dumpsStr j ++ py ": " ++ dumps y ++ (dumpsPairs kvs ++ r)))
        hc (follow_cons (by decide) _)
      have hi := ih j y n (fun z hz => hv z (by simp [List.mem_cons.mp hz]))
        (fun z hz => hw z (by simp [List.mem_cons.mp hz])) (by simp [costPairs] at hn ⊢; omega)
      have he : dumpsPairs ((j, y) :: kvs) ++ r =
          cp ',' :: cp ' ' :: (dumpsStr j ++ py ": " ++ dumps y ++ (dumpsPairs kvs ++ r)) := by
        simp [dumpsPairs, py]
      have hq : skipWs (dumpsStr j ++ py ": " ++ dumps y ++ (dumpsPairs kvs ++ r)) =
          dumpsStr j ++ py ": " ++ dumps y ++ (dumpsPairs kvs ++ r) := by
        simp [dumpsStr, skipWs, isJsonSpace]
      rw [parsePairs, parseKey_dumps k _ x (hw (k, x) (by simp)), he]
      simp only [hx, skipWs_cons (show isJsonSpace (cp ',') = false by decide), skipWs_space, hq, hi]
      simp

theorem parseValue_dumps (v : Json) (h : v.wf = true) (n : ℕ) (r : PyStr) (hn : cost v ≤ n)
    (hr : Follow r) : parseValue n (dumps v ++ r) = some (v, r) := by
  induction v using Json.ind generalizing n r with
  | null =>
    obtain ⟨m, rfl⟩ := Nat.exists_eq_succ_of_ne_zero (by simp [cost] at hn; omega : n ≠ 0)
    simp [dumps, py, parseValue, scanAtom, startswith, List.isPrefixOf]
  | bool b =>
    obtain ⟨m, rfl⟩ := Nat.exists_eq_succ_of_ne_zero (by simp [cost] at hn; omega : n ≠ 0)
    cases b <;> simp [dumps, py, parseValue, scanAtom, startswith, List.isPrefixOf]
  | int k =>
    obtain ⟨m, rfl⟩ := Nat.exists_eq_succ_of_ne_zero (by simp [cost] at hn; omega : n ≠ 0)
    exact parseValue_number m (dumpsInt_ne_nil k) (dumpsInt_chars k) hr (numberOf_dumpsInt k)
  | float lit =>
    obtain ⟨m, rfl⟩ := Nat.exists_eq_succ_of_ne_zero (by simp [cost] at hn; omega : n ≠ 0)
    exact parseValue_float m (by rw [wf] at h; exact h) hr
  | str s =>
    obtain ⟨m, rfl⟩ := Nat.exists_eq_succ_of_ne_zero (by simp [cost] at hn; omega : n ≠ 0)
    simp [dumps, dumpsStr, parseValue, scanString_dumps]
  | arr xs ih =>
    obtain ⟨m, rfl⟩ := Nat.exists_eq_succ_of_ne_zero (by simp [cost] at hn; omega : n ≠ 0)
    cases xs with
    | nil => simp [dumps, py, parseValue, skipWs, isJsonSpace]
    | cons x xs =>
      have hw := (wfItems_iff _).mp (by simpa [wf] using h)
      have hi := parseItems_dumps xs x m r (fun y hy => fun k r => ih y hy (hw y hy) k r) hw
        (by simp [cost] at hn; omega)
      have hs : skipWs (dumps x ++ dumpsItems xs ++ r) = dumps x ++ dumpsItems xs ++ r := by
        rw [List.append_assoc, skipWs_dumps (hw x (by simp))]
      obtain ⟨c, t, hc, -, hne⟩ := dumps_head (hw x (by simp))
      have hh : (dumps x ++ dumpsItems xs ++ r).head? ≠ some (cp ']') := by simpa [hc] using hne
      simp only [dumps, List.cons_append, parseValue]
      rw [if_neg (by simp), if_neg (by simp), hs, if_neg hh, hi]
      simp
  | obj kvs ih =>
    obtain ⟨m, rfl⟩ := Nat.exists_eq_succ_of_ne_zero (by simp [cost] at hn; omega : n ≠ 0)
    simp only [wf, Bool.and_eq_true, decide_eq_true_eq] at h
    cases kvs with
    | nil => simp [dumps, parseValue, skipWs, isJsonSpace]
    | cons kv kvs =>
      obtain ⟨k, x⟩ := kv
      have hw := (wfPairs_iff _).mp h.2
      have hi := parsePairs_dumps kvs k x m r (fun y hy => fun k r => ih y hy (hw y hy) k r) hw
        (by simp [cost] at hn; omega)
      have hs : skipWs (dumpsStr k ++ py ": " ++ dumps x ++ (dumpsPairs kvs ++ r)) =
          dumpsStr k ++ py ": " ++ dumps x ++ (dumpsPairs kvs ++ r) := by
        simp [dumpsStr, skipWs, isJsonSpace]
      have hh : (dumpsStr k ++ py ": " ++ dumps x ++ (dumpsPairs kvs ++ r)).head? ≠
          some (cp '}') := by
        simp [dumpsStr]
      rw [dumps, List.cons_append, List.append_assoc]
      simp only [parseValue]
      rw [if_neg (by simp), hs, if_neg hh, hi]
      simp [ofPairs_of_nodup h.1]

lemma loads_dumps (h : v.wf = true) (hcost : cost v ≤ parseFuel (dumps v)) : loads (dumps v) = some v := by
  have hws := skipWs_dumps h []
  have hparse := parseValue_dumps v h _ [] hcost follow_nil
  rw [List.append_nil] at hws hparse
  rw [loads, hws, hparse]
  rfl

theorem dumps_injective {a b : Json} (ha : a.wf = true) (hb : b.wf = true)
    (h : dumps a = dumps b) : a = b := by
  have pa := parseValue_dumps a ha (a.cost + b.cost) [] (by omega) follow_nil
  have pb := parseValue_dumps b hb (a.cost + b.cost) [] (by omega) follow_nil
  rw [h, pb] at pa
  simpa using pa.symm

lemma canonItems_eq_map (xs : List Json) : canonItems xs = xs.map canon := by
  induction xs with
  | nil => rfl
  | cons x xs ih => simp [canonItems, ih]

lemma canonPairs_eq_map (kvs : List (PyStr × Json)) :
    canonPairs kvs = kvs.map fun kv => (kv.1, canon kv.2) := by
  induction kvs with
  | nil => rfl
  | cons kv kvs ih => simp [canonPairs, ih]

lemma keys_canonPairs (kvs : List (PyStr × Json)) : keys (canonPairs kvs) = keys kvs := by
  simp [canonPairs_eq_map, keys]

lemma sortPairs_perm {α : Type*} (kvs : List (PyStr × α)) : (sortPairs kvs).Perm kvs :=
  List.perm_insertionSort _ kvs

lemma wf_canon (h : v.wf = true) : v.canon.wf = true := by
  induction v using Json.ind with
  | arr xs ih =>
    have hw := (wfItems_iff xs).mp (by simpa [wf] using h)
    simp only [canon, wf, canonItems_eq_map, wfItems_iff, List.mem_map, forall_exists_index, and_imp]
    rintro _ x hx rfl
    exact ih x hx (hw x hx)
  | obj kvs ih =>
    simp only [wf, Bool.and_eq_true, decide_eq_true_eq] at h
    have hw := (wfPairs_iff kvs).mp h.2
    have hp := sortPairs_perm (canonPairs kvs)
    simp only [canon, wf, Bool.and_eq_true, decide_eq_true_eq, wfPairs_iff]
    constructor
    · have hk : (keys (sortPairs (canonPairs kvs))).Perm (keys kvs) := by
        rw [← keys_canonPairs kvs]
        exact hp.map Prod.fst
      exact hk.nodup_iff.mpr h.1
    · intro kv hkv
      have hm := hp.mem_iff.mp hkv
      rw [canonPairs_eq_map] at hm
      obtain ⟨x, hx, rfl⟩ := List.mem_map.mp hm
      exact ih x hx (hw x hx)
  | _ => simpa [canon] using h

lemma truthy_canon (v : Json) : v.canon.truthy = v.truthy := by
  cases v with
  | arr xs => cases xs <;> simp [canon, canonItems, truthy]
  | obj kvs =>
    have hl : (sortPairs (canonPairs kvs)).length = kvs.length := by
      rw [(sortPairs_perm _).length_eq, canonPairs_eq_map, List.length_map]
    cases kvs with
    | nil => rfl
    | cons kv kvs =>
      cases hs : sortPairs (canonPairs (kv :: kvs)) with
      | nil => simp [hs] at hl
      | cons a as => simp [canon, truthy, hs]
  | _ => rfl

lemma wf_getNone {d : Dict PyStr Json} (h : (Json.obj d).wf = true) (k : PyStr) :
    (getNone d k).wf = true := by
  rw [getNone]
  cases hg : get? d k with
  | none => rfl
  | some v =>
    simp only [wf, Bool.and_eq_true] at h
    exact (wfPairs_iff d).mp h.2 (k, v) (mem_of_get? hg)

theorem dumpsSorted_eq_iff {a b : Json} (ha : a.wf = true) (hb : b.wf = true) :
    dumpsSorted a = dumpsSorted b ↔ Same a b :=
  ⟨dumps_injective (wf_canon ha) (wf_canon hb), fun h => by rw [dumpsSorted, h]; rfl⟩

end AgentTrajectory.PyJson
