import AgentTrajectory.PyDict

/-! Trees whose nodes are reached by paths of keys. `valAt` is what a tree means: a partial
function from paths to values; every operation is described by what it does to it. -/
namespace AgentTrajectory

inductive PrefixTree (κ α : Type*)
  | node (val : α) (children : List (κ × PrefixTree κ α))

namespace PrefixTree
variable {κ α : Type*}

def val : PrefixTree κ α → α
  | node v _ => v

def children : PrefixTree κ α → List (κ × PrefixTree κ α)
  | node _ cs => cs

def leaf (v : α) : PrefixTree κ α := node v []

mutual
def values : PrefixTree κ α → List α
  | node v cs => v :: valuesOf cs
def valuesOf : List (κ × PrefixTree κ α) → List α
  | [] => []
  | (_, c) :: cs => values c ++ valuesOf cs
end

variable [DecidableEq κ]

/-- The subtree at a path. -/
def get? : PrefixTree κ α → List κ → Option (PrefixTree κ α)
  | t, [] => some t
  | t, k :: ks =>
      match PyDict.get? t.children k with
      | none => none
      | some c => get? c ks

def valAt (t : PrefixTree κ α) (p : List κ) : Option α := (t.get? p).map val

/-- Apply `f` to the subtree at a path, if there is one. -/
def modifyAt (f : PrefixTree κ α → PrefixTree κ α) : PrefixTree κ α → List κ → PrefixTree κ α
  | t, [] => f t
  | node v cs, k :: ks =>
      match PyDict.get? cs k with
      | none => node v cs
      | some c => node v (PyDict.set cs k (modifyAt f c ks))

/-- Give a node the child `k` if it has none. -/
def ensure (k : κ) (a : α) : PrefixTree κ α → PrefixTree κ α
  | node v cs =>
      match PyDict.get? cs k with
      | some _ => node v cs
      | none => node v (PyDict.set cs k (leaf a))

def ensureAt (t : PrefixTree κ α) (p : List κ) (k : κ) (a : α) : PrefixTree κ α :=
  t.modifyAt (ensure k a) p

def mapVal (g : α → α) : PrefixTree κ α → PrefixTree κ α
  | node v cs => node (g v) cs

def updateAt (t : PrefixTree κ α) (p : List κ) (g : α → α) : PrefixTree κ α :=
  t.modifyAt (mapVal g) p

@[simp] lemma valAt_nil (t : PrefixTree κ α) : t.valAt [] = some t.val := rfl

lemma valAt_cons (t : PrefixTree κ α) (k : κ) (ks : List κ) :
    t.valAt (k :: ks) = (PyDict.get? t.children k).bind fun c => c.valAt ks := by
  simp only [valAt, get?]
  cases PyDict.get? t.children k <;> rfl

omit [DecidableEq κ] in
@[simp] lemma val_leaf (a : α) : (leaf a : PrefixTree κ α).val = a := rfl

lemma valAt_leaf_cons (a : α) (k : κ) (ks : List κ) :
    (leaf a : PrefixTree κ α).valAt (k :: ks) = none := by
  simp [valAt_cons, leaf, children]

lemma valAt_updateAt (t : PrefixTree κ α) (p q : List κ) (g : α → α) :
    (t.updateAt p g).valAt q = if q = p then (t.valAt p).map g else t.valAt q := by
  induction p generalizing t q with
  | nil =>
    cases t with
    | node v cs =>
      cases q with
      | nil => rfl
      | cons k ks => simp [updateAt, modifyAt, mapVal, valAt_cons, children]
  | cons k ks ih =>
    cases t with
    | node v cs =>
      simp only [updateAt] at ih
      cases h : PyDict.get? cs k with
      | none =>
        simp only [updateAt, modifyAt, h]
        split_ifs with hq
        · subst hq; simp [valAt_cons, children, h]
        · rfl
      | some c =>
        simp only [updateAt, modifyAt, h]
        cases q with
        | nil => rfl
        | cons j js =>
          simp only [valAt_cons, children, PyDict.get?_set, List.cons.injEq]
          by_cases hj : k = j
          · subst hj; simp [h, ih]
          · simp [hj, Ne.symm hj]

/-- Ensuring a child of an existing node adds at most the one new path. -/
lemma valAt_ensureAt (t : PrefixTree κ α) (p q : List κ) (k : κ) (a : α) (h : (t.valAt p).isSome) :
    (t.ensureAt p k a).valAt q =
      if q = p ++ [k] then some ((t.valAt q).getD a) else t.valAt q := by
  induction p generalizing t q with
  | nil =>
    cases t with
    | node v cs =>
      cases hc : PyDict.get? cs k with
      | some c =>
        simp only [ensureAt, modifyAt, ensure, hc]
        split_ifs with hq
        · subst hq; simp [valAt_cons, children, hc]
        · rfl
      | none =>
        simp only [ensureAt, modifyAt, ensure, hc]
        cases q with
        | nil => simp [val]
        | cons j js =>
          simp only [valAt_cons, children, PyDict.get?_set, List.nil_append, List.cons.injEq]
          by_cases hj : k = j
          · subst hj
            cases js with
            | nil => simp [hc]
            | cons i is => simp [hc, valAt_leaf_cons]
          · simp [hj, Ne.symm hj]
  | cons i is ih =>
    cases t with
    | node v cs =>
      simp only [ensureAt] at ih
      cases hc : PyDict.get? cs i with
      | none => simp [valAt_cons, children, hc] at h
      | some c =>
        have hi : (c.valAt is).isSome := by simpa [valAt_cons, children, hc] using h
        simp only [ensureAt, modifyAt, hc]
        cases q with
        | nil => rfl
        | cons j js =>
          simp only [valAt_cons, children, PyDict.get?_set, List.cons_append, List.cons.injEq]
          by_cases hj : i = j
          · subst hj; simp [hc, ih c js hi]
          · simp [hj, Ne.symm hj]

lemma get?_append (t : PrefixTree κ α) (p q : List κ) :
    t.get? (p ++ q) = (t.get? p).bind fun s => s.get? q := by
  induction p generalizing t with
  | nil => rfl
  | cons k ks ih =>
    simp only [List.cons_append, get?]
    cases PyDict.get? t.children k with
    | none => rfl
    | some c => exact ih c

lemma valAt_append {t s : PrefixTree κ α} {p : List κ} (h : t.get? p = some s) (q : List κ) :
    t.valAt (p ++ q) = s.valAt q := by
  rw [valAt, get?_append, h, Option.bind_some, valAt]

mutual
def Distinct : PrefixTree κ α → Prop
  | node _ cs => (PyDict.keys cs).Nodup ∧ DistinctOf cs
def DistinctOf : List (κ × PrefixTree κ α) → Prop
  | [] => True
  | (_, c) :: cs => Distinct c ∧ DistinctOf cs
end

omit [DecidableEq κ] in
lemma distinctOf_iff {cs : List (κ × PrefixTree κ α)} :
    DistinctOf cs ↔ ∀ kc ∈ cs, kc.2.Distinct := by
  induction cs with
  | nil => simp [DistinctOf]
  | cons kc cs ih => simp [DistinctOf, ih]

omit [DecidableEq κ] in
lemma distinct_leaf (a : α) : (leaf a : PrefixTree κ α).Distinct := by
  simp [leaf, Distinct, DistinctOf, PyDict.keys]

lemma distinct_set {cs : List (κ × PrefixTree κ α)} (hkeys : (PyDict.keys cs).Nodup)
    (hcs : DistinctOf cs) (v : α) (k : κ) {c : PrefixTree κ α} (hc : c.Distinct) :
    (node v (PyDict.set cs k c)).Distinct := by
  refine ⟨PyDict.keys_nodup_set hkeys k c, distinctOf_iff.mpr fun kc hkc => ?_⟩
  rcases (PyDict.mem_set hkeys k c kc).mp hkc with rfl | ⟨hmem, -⟩
  · exact hc
  · exact distinctOf_iff.mp hcs kc hmem

lemma Distinct.modifyAt {f : PrefixTree κ α → PrefixTree κ α}
    (hf : ∀ t, t.Distinct → (f t).Distinct) {t : PrefixTree κ α} (ht : t.Distinct) (p : List κ) :
    (t.modifyAt f p).Distinct := by
  induction p generalizing t with
  | nil => cases t; exact hf _ ht
  | cons k ks ih =>
    cases t with
    | node v cs =>
      rw [PrefixTree.modifyAt]
      cases hc : PyDict.get? cs k with
      | none => exact ht
      | some c =>
        obtain ⟨hkeys, hcs⟩ := ht
        exact distinct_set hkeys hcs v k
          (ih (distinctOf_iff.mp hcs (k, c) (PyDict.mem_of_get? hc)))

lemma Distinct.ensureAt {t : PrefixTree κ α} (ht : t.Distinct) (p : List κ) (k : κ) (a : α) :
    (t.ensureAt p k a).Distinct := by
  refine ht.modifyAt (fun s hs => ?_) p
  cases s with
  | node v cs =>
    rw [ensure]
    cases PyDict.get? cs k with
    | some c => exact hs
    | none => exact distinct_set hs.1 hs.2 v k (distinct_leaf a)

lemma Distinct.updateAt {t : PrefixTree κ α} (ht : t.Distinct) (p : List κ) (g : α → α) :
    (t.updateAt p g).Distinct := by
  refine ht.modifyAt (fun s hs => ?_) p
  cases s
  exact hs

lemma Distinct.get? {t s : PrefixTree κ α} (ht : t.Distinct) {p : List κ} (h : t.get? p = some s) :
    s.Distinct := by
  induction p generalizing t with
  | nil => exact Option.some.inj h ▸ ht
  | cons k ks ih =>
    cases t with
    | node v cs =>
      simp only [PrefixTree.get?, children] at h
      cases hc : PyDict.get? cs k with
      | none => simp [hc] at h
      | some c =>
        rw [hc] at h
        exact ih (distinctOf_iff.mp ht.2 (k, c) (PyDict.mem_of_get? hc)) h

mutual
lemma exists_valAt_of_mem_values {a : α} :
    ∀ t : PrefixTree κ α, t.Distinct → a ∈ t.values → ∃ p, t.valAt p = some a
  | node v cs, ht, h => by
      rw [values, List.mem_cons] at h
      rcases h with rfl | h
      · exact ⟨[], rfl⟩
      · obtain ⟨kc, hkc, p, hp⟩ := exists_valAt_of_mem_valuesOf cs ht.2 h
        refine ⟨kc.1 :: p, ?_⟩
        rw [valAt_cons, children, PyDict.get?_of_mem ht.1 hkc, Option.bind_some, hp]
lemma exists_valAt_of_mem_valuesOf {a : α} :
    ∀ cs : List (κ × PrefixTree κ α), DistinctOf cs → a ∈ valuesOf cs →
      ∃ kc ∈ cs, ∃ p, kc.2.valAt p = some a
  | [], _, h => by simp [valuesOf] at h
  | (k, c) :: cs, hcs, h => by
      rw [valuesOf, List.mem_append] at h
      rcases h with h | h
      · obtain ⟨p, hp⟩ := exists_valAt_of_mem_values c hcs.1 h
        exact ⟨(k, c), List.mem_cons_self, p, hp⟩
      · obtain ⟨kc, hkc, hp⟩ := exists_valAt_of_mem_valuesOf cs hcs.2 h
        exact ⟨kc, List.mem_cons_of_mem _ hkc, hp⟩
end

omit [DecidableEq κ] in
lemma mem_valuesOf {a : α} {cs : List (κ × PrefixTree κ α)} {kc : κ × PrefixTree κ α} (hkc : kc ∈ cs)
    (h : a ∈ kc.2.values) : a ∈ valuesOf cs := by
  induction cs with
  | nil => simp at hkc
  | cons jc cs ih =>
    rw [valuesOf, List.mem_append]
    rcases List.mem_cons.mp hkc with rfl | hkc
    · exact .inl h
    · exact .inr (ih hkc)

theorem mem_values_iff {t : PrefixTree κ α} (ht : t.Distinct) {a : α} :
    a ∈ t.values ↔ ∃ p, t.valAt p = some a := by
  refine ⟨exists_valAt_of_mem_values t ht, ?_⟩
  rintro ⟨p, hp⟩
  clear ht
  induction p generalizing t with
  | nil =>
    cases t
    exact List.mem_cons.mpr (.inl (Option.some.inj hp).symm)
  | cons k ks ih =>
    cases t with
    | node v cs =>
      rw [valAt_cons, Option.bind_eq_some_iff] at hp
      obtain ⟨c, hc, hp⟩ := hp
      exact List.mem_cons_of_mem _ (mem_valuesOf (PyDict.mem_of_get? hc) (ih hp))

end PrefixTree
end AgentTrajectory
