import AgentTrajectory.PyText
import AgentTrajectory.PyDict

/-! JSON values and the `json` module: `dumps` with `ensure_ascii=False`, with and
without `sort_keys`, and `loads`. Binary floating point is left out: a float is carried
by its literal. Interpreter limits (recursion depth, digits of an integer) are not modelled. -/
namespace AgentTrajectory.PyJson
open PyText PyDict

inductive Json
  | null
  | bool (b : Bool)
  | int (n : ℤ)
  | float (lit : PyStr)
  | str (s : PyStr)
  | arr (xs : List Json)
  | obj (kvs : List (PyStr × Json))

namespace Json

mutual
def beq : Json → Json → Bool
  | .null, .null => true
  | .bool a, .bool b => a == b
  | .int a, .int b => a == b
  | .float a, .float b => a == b
  | .str a, .str b => a == b
  | .arr a, .arr b => beqItems a b
  | .obj a, .obj b => beqPairs a b
  | _, _ => false
def beqItems : List Json → List Json → Bool
  | [], [] => true
  | x :: xs, y :: ys => beq x y && beqItems xs ys
  | _, _ => false
def beqPairs : List (PyStr × Json) → List (PyStr × Json) → Bool
  | [], [] => true
  | (j, x) :: xs, (k, y) :: ys => j == k && beq x y && beqPairs xs ys
  | _, _ => false
end

theorem ind {P : Json → Prop} (null : P .null) (bool : ∀ b, P (.bool b)) (int : ∀ n, P (.int n))
    (float : ∀ l, P (.float l)) (str : ∀ s, P (.str s))
    (arr : ∀ xs, (∀ x ∈ xs, P x) → P (.arr xs))
    (obj : ∀ kvs, (∀ kv ∈ kvs, P kv.2) → P (.obj kvs)) (v : Json) : P v :=
  @Json.rec P (fun xs => ∀ x ∈ xs, P x) (fun kvs => ∀ kv ∈ kvs, P kv.2) (fun kv => P kv.2)
    null bool int float str arr obj (by simp)
    (fun _ _ hx hxs => List.forall_mem_cons.mpr ⟨hx, hxs⟩) (by simp)
    (fun _ _ hx hxs => List.forall_mem_cons.mpr ⟨hx, hxs⟩) (fun _ _ h => h) v

theorem beq_iff (a b : Json) : beq a b = true ↔ a = b := by
  induction a using ind generalizing b with
  | null => cases b <;> simp [beq]
  | bool => cases b <;> simp [beq]
  | int => cases b <;> simp [beq]
  | float => cases b <;> simp [beq]
  | str => cases b <;> simp [beq]
  | arr xs ih =>
    have items : ∀ ys, beqItems xs ys = true ↔ xs = ys := by
      induction xs with
      | nil => intro ys; cases ys <;> simp [beqItems]
      | cons x xs ihx =>
        intro ys
        cases ys with
        | nil => simp [beqItems]
        | cons y ys =>
          simp [beqItems, ih x (by simp) y, ihx (fun z hz => ih z (by simp [hz])) ys]
    cases b <;> simp [beq, items]
  | obj kvs ih =>
    have pairs : ∀ ys, beqPairs kvs ys = true ↔ kvs = ys := by
      induction kvs with
      | nil => intro ys; cases ys <;> simp [beqPairs]
      | cons x xs ihx =>
        intro ys
        cases ys with
        | nil => simp [beqPairs]
        | cons y ys =>
          simp [beqPairs, ih x (by simp) y.2, ihx (fun z hz => ih z (by simp [hz])) ys,
            Prod.ext_iff]
    cases b <;> simp [beq, pairs]

instance : DecidableEq Json := fun a b => decidable_of_iff (beq a b = true) (beq_iff a b)

/-- `bool(x)`. -/
def truthy : Json → Bool
  | .null => false
  | .bool b => b
  | .int n => n != 0
  | .float lit => (lit.takeWhile fun c => c != cp 'e' && c != cp 'E').any fun c =>
      49 ≤ c.val && c.val ≤ 57 || c == cp 'N' || c == cp 'I'
  | .str s => !s.isEmpty
  | .arr xs => !xs.isEmpty
  | .obj kvs => !kvs.isEmpty

end Json

def hashable : Json → Bool
  | .arr _ => false
  | .obj _ => false
  | _ => true

/-- `x.get(k)` on a dictionary that lacks `k` is `None`. -/
def getNone (d : Dict PyStr Json) (k : PyStr) : Json := (get? d k).getD .null

/-- The escape of one code point with `ensure_ascii=False`. -/
def escapePoint (c : CodePoint) : PyStr :=
  if c = cp '"' then py "\\\""
  else if c = cp '\\' then py "\\\\"
  else if c.val = 8 then py "\\b"
  else if c.val = 9 then py "\\t"
  else if c.val = 10 then py "\\n"
  else if c.val = 12 then py "\\f"
  else if c.val = 13 then py "\\r"
  else if c.val < 32 then py "\\u00" ++ [hexDigit (c.val / 16), hexDigit (c.val % 16)]
  else [c]

def dumpsStr (s : PyStr) : PyStr := cp '"' :: (s.flatMap escapePoint ++ [cp '"'])

def natDigits (n : ℕ) : PyStr :=
  if n = 0 then py "0" else (Nat.digits 10 n).reverse.map fun d => Fin.ofNat _ (48 + d)

def dumpsInt (n : ℤ) : PyStr :=
  if n < 0 then cp '-' :: natDigits n.natAbs else natDigits n.natAbs

namespace Json

/-! `json.dumps(v, ensure_ascii=False)`: separators are `", "` and `": "`. -/
mutual
def dumps : Json → PyStr
  | .null => py "null"
  | .bool true => py "true"
  | .bool false => py "false"
  | .int n => dumpsInt n
  | .float lit => lit
  | .str s => dumpsStr s
  | .arr [] => py "[]"
  | .arr (x :: xs) => cp '[' :: (dumps x ++ dumpsItems xs)
  | .obj [] => [cp '{', cp '}']
  | .obj ((k, x) :: kvs) => cp '{' :: (dumpsStr k ++ py ": " ++ dumps x ++ dumpsPairs kvs)
def dumpsItems : List Json → PyStr
  | [] => py "]"
  | x :: xs => py ", " ++ dumps x ++ dumpsItems xs
def dumpsPairs : List (PyStr × Json) → PyStr
  | [] => [cp '}']
  | (k, x) :: kvs => py ", " ++ dumpsStr k ++ py ": " ++ dumps x ++ dumpsPairs kvs
end

end Json

/-- The order of `sort_keys`. -/
def keyLe (a b : PyStr) : Prop := a ≤ b
instance : DecidableRel keyLe := fun a b => inferInstanceAs (Decidable (a ≤ b))

def sortPairs {α : Type*} (kvs : List (PyStr × α)) : List (PyStr × α) :=
  kvs.insertionSort fun a b => keyLe a.1 b.1

namespace Json

/-! The value with the keys of every object in order. -/
mutual
def canon : Json → Json
  | .arr xs => .arr (canonItems xs)
  | .obj kvs => .obj (sortPairs (canonPairs kvs))
  | v => v
def canonItems : List Json → List Json
  | [] => []
  | x :: xs => canon x :: canonItems xs
def canonPairs : List (PyStr × Json) → List (PyStr × Json)
  | [] => []
  | (k, x) :: kvs => (k, canon x) :: canonPairs kvs
end

/-- `json.dumps(v, sort_keys=True, ensure_ascii=False)`. -/
def dumpsSorted (v : Json) : PyStr := dumps (canon v)

/-- Equality of JSON values: the order of an object's keys does not count. -/
def Same (a b : Json) : Prop := canon a = canon b

instance (a b : Json) : Decidable (Same a b) := inferInstanceAs (Decidable (canon a = canon b))

end Json

def isJsonSpace (c : CodePoint) : Bool :=
  c == cp ' ' || c == cp '\t' || c == cp '\n' || c == cp '\r'

def skipWs (s : PyStr) : PyStr := s.dropWhile isJsonSpace

def hexValue (c : CodePoint) : Option ℕ :=
  let n := c.val
  if 48 ≤ n && n ≤ 57 then some (n - 48)
  else if 65 ≤ n && n ≤ 70 then some (n - 55)
  else if 97 ≤ n && n ≤ 102 then some (n - 87)
  else none

def unescape (c : CodePoint) : Option CodePoint :=
  if c = cp '"' then some (cp '"')
  else if c = cp '\\' then some (cp '\\')
  else if c = cp '/' then some (cp '/')
  else if c = cp 'b' then some 8
  else if c = cp 'f' then some 12
  else if c = cp 'n' then some 10
  else if c = cp 'r' then some 13
  else if c = cp 't' then some 9
  else none

def isHigh (n : ℕ) : Bool := 0xD800 ≤ n && n ≤ 0xDBFF
def isLow (n : ℕ) : Bool := 0xDC00 ≤ n && n ≤ 0xDFFF
def joinSurrogates (hi lo : ℕ) : CodePoint :=
  Fin.ofNat _ (0x10000 + (hi - 0xD800) * 1024 + (lo - 0xDC00))

/-- The body of a string after its opening quote, in strict mode. `pending` holds a high
surrogate escape that waits for the low one to join; any other character releases it. -/
def scanString (pending : Option ℕ) : PyStr → Option (PyStr × PyStr)
  | [] => none
  | c :: s =>
      let flush : PyStr := (pending.map fun h => (Fin.ofNat _ h : CodePoint)).toList
      if c = cp '"' then some (flush, s)
      else if c = cp '\\' then
        match s with
        | [] => none
        | e :: s' =>
            if e = cp 'u' then
              match s' with
              | a :: b :: d :: f :: r =>
                  match hexValue a, hexValue b, hexValue d, hexValue f with
                  | some w, some x, some y, some z =>
                      let u := ((w * 16 + x) * 16 + y) * 16 + z
                      if isLow u && pending.isSome then
                        (scanString none r).map fun p =>
                          (joinSurrogates (pending.getD 0) u :: p.1, p.2)
                      else if isHigh u then
                        (scanString (some u) r).map fun p => (flush ++ p.1, p.2)
                      else (scanString none r).map fun p => (flush ++ Fin.ofNat _ u :: p.1, p.2)
                  | _, _, _, _ => none
              | _ => none
            else match unescape e with
              | some x => (scanString none s').map fun p => (flush ++ x :: p.1, p.2)
              | none => none
      else if c.val < 32 then none
      else (scanString none s).map fun p => (flush ++ c :: p.1, p.2)

def isDigit (c : CodePoint) : Bool := 48 ≤ c.val && c.val ≤ 57

def isNumberChar (c : CodePoint) : Bool :=
  isDigit c || c == cp '-' || c == cp '+' || c == cp '.' || c == cp 'e' || c == cp 'E'

def digitsValue (s : PyStr) : ℕ := s.foldl (fun n c => n * 10 + (c.val - 48)) 0

/-- `(\.\d+)?` and `([eE][-+]?\d+)?` up to the end of the token. -/
def exponentOk (s : PyStr) : Bool :=
  match s with
  | [] => true
  | c :: r =>
      (c == cp 'e' || c == cp 'E') &&
        (let d := if r.head? = some (cp '+') || r.head? = some (cp '-') then r.tail else r
         !d.isEmpty && d.all isDigit)

def fractionOk (s : PyStr) : Bool :=
  match s with
  | [] => true
  | c :: r =>
      if c = cp '.' then !(r.takeWhile isDigit).isEmpty && exponentOk (r.dropWhile isDigit)
      else exponentOk s

/-- A whole number token; the leading part `-?(0|[1-9]\d*)` alone makes an integer. -/
def numberOf (tok : PyStr) : Option Json :=
  let neg := tok.head? = some (cp '-')
  let body := if neg then tok.tail else tok
  let ip := body.takeWhile isDigit
  let rest := body.dropWhile isDigit
  if ip.isEmpty || (ip.length != 1 && ip.head? = some (cp '0')) then none
  else if rest.isEmpty then
    some (.int (if neg then -(digitsValue ip : ℤ) else (digitsValue ip : ℤ)))
  else if fractionOk rest then some (.float tok)
  else none

/-- A scalar other than a string. A number takes every character a number can hold: what
the grammar leaves over of them can never follow a value. -/
def scanAtom (s : PyStr) : Option (Json × PyStr) :=
  if startswith s (py "null") then some (.null, s.drop 4)
  else if startswith s (py "true") then some (.bool true, s.drop 4)
  else if startswith s (py "false") then some (.bool false, s.drop 5)
  else if startswith s (py "NaN") then some (.float (py "NaN"), s.drop 3)
  else if startswith s (py "Infinity") then some (.float (py "Infinity"), s.drop 8)
  else if startswith s (py "-Infinity") then some (.float (py "-Infinity"), s.drop 9)
  else (numberOf (s.takeWhile isNumberChar)).map fun v => (v, s.dropWhile isNumberChar)

def parseKey : PyStr → Option (PyStr × PyStr)
  | [] => none
  | q :: s =>
      if q = cp '"' then
        match scanString none s with
        | none => none
        | some (k, r) =>
            match skipWs r with
            | [] => none
            | c :: t => if c = cp ':' then some (k, skipWs t) else none
      else none

mutual
def parseValue : ℕ → PyStr → Option (Json × PyStr)
  | 0, _ => none
  | _ + 1, [] => none
  | n + 1, c :: s =>
      if c = cp '"' then (scanString none s).map fun p => (.str p.1, p.2)
      else if c = cp '{' then
        if (skipWs s).head? = some (cp '}') then some (.obj [], (skipWs s).tail)
        else (parsePairs n (skipWs s)).map fun p => (.obj (ofPairs p.1), p.2)
      else if c = cp '[' then
        if (skipWs s).head? = some (cp ']') then some (.arr [], (skipWs s).tail)
        else (parseItems n (skipWs s)).map fun p => (.arr p.1, p.2)
      else scanAtom (c :: s)
def parseItems : ℕ → PyStr → Option (List Json × PyStr)
  | 0, _ => none
  | n + 1, s =>
      match parseValue n s with
      | none => none
      | some (v, r) =>
          match skipWs r with
          | [] => none
          | c :: t =>
              if c = cp ',' then (parseItems n (skipWs t)).map fun p => (v :: p.1, p.2)
              else if c = cp ']' then some ([v], t)
              else none
def parsePairs : ℕ → PyStr → Option (List (PyStr × Json) × PyStr)
  | 0, _ => none
  | n + 1, s =>
      match parseKey s with
      | none => none
      | some (k, r) =>
          match parseValue n r with
          | none => none
          | some (v, t) =>
              match skipWs t with
              | [] => none
              | c :: u =>
                  if c = cp ',' then (parsePairs n (skipWs u)).map fun p => ((k, v) :: p.1, p.2)
                  else if c = cp '}' then some ([(k, v)], u)
                  else none
end

def parseFuel (s : PyStr) : ℕ := 2 * s.length + 2

/-- `json.loads(s)`; `none` stands for `JSONDecodeError`. -/
def loads (s : PyStr) : Option Json :=
  match parseValue (parseFuel s) (skipWs s) with
  | none => none
  | some (v, r) => if (skipWs r).isEmpty then some v else none

end AgentTrajectory.PyJson
