import AgentTrajectory.PyJson
import AgentTrajectory.RelatedLists

/-! What Python does with parsed JSON values: subscripts, attribute access, `+`, `list()`
and `dict.update()`, each with the exception it raises on a value of the wrong type. -/
namespace AgentTrajectory.PyValue
open PyText PyDict PyJson RelatedLists

/-- What the interpreter does with floats: the value that stands for a float as a
dictionary key, and sums in which one takes part. -/
structure Floats where
  key : PyStr → Json
  add : Json → Json → Except PyError Json

/-- `d[k]`. -/
def getItem (d : Dict PyStr Json) (k : PyStr) : Except PyError Json :=
  match get? d k with
  | some v => .ok v
  | none => .error .keyError

/-- The dictionary on which `x.get` or `x.update` is called. -/
def asDict : Json → Except PyError (Dict PyStr Json)
  | .obj d => .ok d
  | _ => .error .attributeError

/-- `v or empty`. -/
def orEmpty (v empty : Json) : Json := if v.truthy then v else empty

/-- `list(x)`. -/
def listOf : Json → Except PyError (List Json)
  | .arr xs => .ok xs
  | .str s => .ok (s.map fun c => .str [c])
  | .obj kvs => .ok ((keys kvs).map .str)
  | _ => .error .typeError

def iterable : Json → Bool
  | .arr _ => true
  | .str _ => true
  | .obj _ => true
  | _ => false

def itemsOf (v : Json) : List Json := (listOf v).toOption.getD []

/-- An index as an integer; a `bool` is one. -/
def asIndex : Json → Except PyError ℤ
  | .int n => .ok n
  | .bool b => .ok (if b then 1 else 0)
  | _ => .error .typeError

/-- The position that index `i` names in a list: negative ones count from the end. -/
def position (len : ℕ) (i : ℤ) : Except PyError ℕ :=
  if 0 ≤ i ∧ i < len then .ok i.toNat
  else if i < 0 ∧ 0 ≤ len + i then .ok (len + i).toNat
  else .error .indexError

def hashKey (fl : Floats) : Json → Except PyError Json
  | .arr _ => .error .typeError
  | .obj _ => .error .typeError
  | .bool b => .ok (.int (if b then 1 else 0))
  | .float lit => .ok (fl.key lit)
  | v => .ok v

def isNumber : Json → Bool
  | .int _ => true
  | .bool _ => true
  | .float _ => true
  | _ => false

/-- `a + b`. -/
def add (fl : Floats) (a b : Json) : Except PyError Json :=
  match a, b with
  | .str s, .str t => .ok (.str (s ++ t))
  | .arr xs, .arr ys => .ok (.arr (xs ++ ys))
  | _, _ =>
      match asIndex a, asIndex b with
      | .ok m, .ok n => .ok (.int (m + n))
      | _, _ => if isNumber a && isNumber b then fl.add a b else .error .typeError

/-- The value of a run of digits with single underscores between them; `closed` says that a
digit stands in front. -/
def digitsWithUnderscores (decimal : CodePoint → Option ℕ) (closed : Bool) (acc : ℕ) : PyStr → Option ℕ
  | [] => if closed then some acc else none
  | c :: s =>
      match decimal c with
      | some d => digitsWithUnderscores decimal true (10 * acc + d) s
      | none => if closed && c == cp '_' then digitsWithUnderscores decimal false acc s else none

/-- The most digits that `int` takes. -/
def maxStrDigits : ℕ := 4300

/-- `int(s)` for a text, with the decimal digits of `str`. -/
def intOfStr (decimal : CodePoint → Option ℕ) (s : PyStr) : Except PyError ℤ :=
  let t := strip s
  let negative := t.head? == some (cp '-')
  let body := if negative || t.head? == some (cp '+') then t.drop 1 else t
  match digitsWithUnderscores decimal false 0 body with
  | none => .error .valueError
  | some n =>
      if maxStrDigits < (body.filter fun c => (decimal c).isSome).length then .error .valueError
      else .ok (if negative then -n else n)

/-- `int(x)`; `truncate` is `int` of a float, given by its literal. -/
def intOf (decimal : CodePoint → Option ℕ) (truncate : PyStr → Except PyError ℤ) : Json → Except PyError ℤ
  | .int n => .ok n
  | .bool b => .ok (if b then 1 else 0)
  | .float lit => truncate lit
  | .str s => intOfStr decimal s
  | _ => .error .typeError

/-- A dictionary key as `json.dumps` writes it. -/
def keyText : Json → Except PyError PyStr
  | .str s => .ok s
  | .arr _ => .error .typeError
  | .obj _ => .error .typeError
  | v => .ok v.dumps

/-- One element of a sequence given to `dict.update`: a pair, or anything of length two. -/
def pairOf : Json → Except PyError (PyStr × Json)
  | .arr [k, v] => (keyText k).map fun k => (k, v)
  | .str [k, v] => .ok ([k], .str [v])
  | .obj [(k, _), (v, _)] => .ok (k, .str v)
  | .arr _ => .error .valueError
  | .str _ => .error .valueError
  | .obj _ => .error .valueError
  | _ => .error .typeError

/-- `d.update(x)`. A key that is no string is filed under its text. -/
def updateWith (d : Dict PyStr Json) : Json → Except PyError (Dict PyStr Json)
  | .obj e => .ok (update d e)
  | .arr xs => (xs.mapM pairOf).map (update d)
  | .str [] => .ok d
  | .str _ => .error .valueError
  | _ => .error .typeError

lemma bind_eq_ok {α β : Type} {x : Except PyError α} {f : α → Except PyError β} {b : β} :
    x >>= f = .ok b ↔ ∃ a, x = .ok a ∧ f a = .ok b := by
  cases x with
  | error e => simp [bind, Except.bind]
  | ok a => simp [bind, Except.bind]

lemma exists_bind_eq_ok {α β : Type} {x : Except PyError α} {f : α → Except PyError β} :
    (∃ b, x >>= f = .ok b) ↔ ∃ a, x = .ok a ∧ ∃ b, f a = .ok b := by
  simp only [bind_eq_ok]
  rw [exists_comm]
  simp only [exists_and_left]

lemma exists_ite_eq_ok {α : Type} {p : Prop} [Decidable p] {x y : Except PyError α} :
    (∃ a, (if p then x else y) = .ok a) ↔ if p then ∃ a, x = .ok a else ∃ a, y = .ok a := by
  split_ifs <;> rfl

lemma bind_congr_ok {α β : Type} {x : Except PyError α} {f g : α → Except PyError β}
    (h : ∀ a, x = .ok a → f a = g a) : x >>= f = x >>= g := by
  cases x with
  | error e => rfl
  | ok a => exact h a rfl

lemma asDict_eq_ok {v : Json} {d : Dict PyStr Json} : asDict v = .ok d ↔ v = .obj d := by
  cases v <;> simp [asDict]

lemma listOf_eq_ok {v : Json} {xs : List Json} : listOf v = .ok xs ↔ iterable v = true ∧ itemsOf v = xs := by
  cases v <;> simp [listOf, iterable, itemsOf, Except.toOption]

lemma isOk_iff {α : Type} {x : Except PyError α} : x.isOk = true ↔ ∃ a, x = .ok a := by
  cases x with
  | ok a => simp [Except.isOk, Except.toBool]
  | error e => simp [Except.isOk, Except.toBool]

lemma ok_of_toOption {α : Type} {x : Except PyError α} {P : α → Prop} (h : ∃ a ∈ x.toOption, P a) :
    ∃ a, x = .ok a ∧ P a := by
  cases x with
  | ok a => simpa [Except.toOption] using h
  | error e => simp [Except.toOption] at h

lemma map_eq_ok {α β : Type} {x : Except PyError α} {f : α → β} {b : β} :
    x.map f = .ok b ↔ ∃ a, x = .ok a ∧ f a = b := by
  cases x <;> simp [Except.map]

lemma mapM_eq_ok {α β : Type} {f : α → Except PyError β} {xs : List α} {ys : List β} :
    xs.mapM f = .ok ys ↔ List.Forall₂ (fun x y => f x = .ok y) xs ys := by
  induction xs generalizing ys with
  | nil => cases ys <;> simp [pure, Except.pure]
  | cons x xs ih =>
    rw [List.mapM_cons, bind_eq_ok]
    constructor
    · rintro ⟨y, hy, hrest⟩
      obtain ⟨zs, hzs, hys⟩ := bind_eq_ok.mp hrest
      obtain rfl := Except.ok.inj hys
      exact .cons hy (ih.mp hzs)
    · rintro (_ | ⟨hy, hrest⟩)
      exact ⟨_, hy, bind_eq_ok.mpr ⟨_, ih.mpr hrest, rfl⟩⟩

lemma exists_mapM_eq_ok {α β : Type} {f : α → Except PyError β} {xs : List α} :
    (∃ ys, xs.mapM f = .ok ys) ↔ ∀ x ∈ xs, (f x).isOk = true := by
  simp only [mapM_eq_ok, isOk_iff]
  constructor
  · rintro ⟨ys, h⟩ x hx
    obtain ⟨y, -, hy⟩ := forall₂_mem_left h hx
    exact ⟨y, hy⟩
  · exact forall₂_of_forall_exists

@[simp] lemma getItem_of_get? {d : Dict PyStr Json} {k : PyStr} {v : Json} (h : get? d k = some v) :
    getItem d k = .ok v := by
  rw [getItem, h]

lemma getNone_set (d : Dict PyStr Json) (k j : PyStr) (v : Json) :
    getNone (set d k v) j = if k = j then v else getNone d j := by
  rw [getNone, get?_set]
  split_ifs <;> rfl

lemma getNone_set_ne (d : Dict PyStr Json) {k j : PyStr} (h : k ≠ j) (v : Json) :
    getNone (set d k v) j = getNone d j := by
  rw [getNone_set, if_neg h]

lemma position_of_lt {len n : ℕ} (h : n < len) : position len n = .ok n := by
  simp [position, h]

end AgentTrajectory.PyValue
