import Mathlib

/-! Insertion-ordered dictionaries. A `dict` is its list of items; assigning to a
present key keeps the key's place, assigning to a new one appends it. -/
namespace AgentTrajectory.PyDict

abbrev Dict (κ α : Type*) := List (κ × α)

variable {κ α β : Type*} [DecidableEq κ]

def get? (d : Dict κ α) (k : κ) : Option α := List.lookup k d

/-- `d[k] = v`. -/
def set : Dict κ α → κ → α → Dict κ α
  | [], k, v => [(k, v)]
  | (j, w) :: d, k, v => if j = k then (j, v) :: d else (j, w) :: set d k v

/-- `d.setdefault(k, v)`. -/
def setdefault (d : Dict κ α) (k : κ) (v : α) : Dict κ α :=
  match get? d k with
  | some _ => d
  | none => set d k v

/-- `d.update(e)`. -/
def update (d e : Dict κ α) : Dict κ α := e.foldl (fun d kv => set d kv.1 kv.2) d

def ofPairs (ps : List (κ × α)) : Dict κ α := update [] ps

/-- `d[k].extend(xs)` on a `defaultdict(list)`. -/
def extendAt (d : Dict κ (List α)) (k : κ) (xs : List α) : Dict κ (List α) :=
  set d k ((get? d k).getD [] ++ xs)

def keys (d : Dict κ α) : List κ := d.map Prod.fst

/-- The place of every key of a list; the last element with a key stands for it. -/
def places (key : β → κ) (xs : List β) : Dict κ ℕ := ofPairs (xs.zipIdx.map fun p => (key p.1, p.2))

def firstOccurrences (xs : List κ) : List κ := keys (ofPairs (xs.map fun x => (x, ())))

omit [DecidableEq κ] in
lemma length_keys (d : Dict κ α) : (keys d).length = d.length := List.length_map _

@[simp] lemma get?_nil (k : κ) : get? ([] : Dict κ α) k = none := rfl

lemma get?_cons (j k : κ) (w : α) (d : Dict κ α) :
    get? ((j, w) :: d) k = if j = k then some w else get? d k := by
  by_cases h : j = k
  · simp [get?, h]
  · have hk : (k == j) = false := by simpa using fun he => h he.symm
    simp [get?, List.lookup, hk, h]

lemma get?_append (d e : Dict κ α) (k : κ) : get? (d ++ e) k = (get? d k).or (get? e k) :=
  List.lookup_append

lemma get?_set (d : Dict κ α) (k j : κ) (v : α) :
    get? (set d k v) j = if k = j then some v else get? d j := by
  induction d with
  | nil => simp [set, get?_cons]
  | cons kv d ih =>
    obtain ⟨i, w⟩ := kv
    simp only [set]
    split_ifs with hi hj hj
    · simp [get?_cons, hi, hj]
    · simp [get?_cons, hi, hj]
    · rw [get?_cons, if_neg (fun he => hi (he.trans hj.symm)), ih, if_pos hj]
    · rw [get?_cons, get?_cons, ih, if_neg hj]

@[simp] lemma get?_set_self (d : Dict κ α) (k : κ) (v : α) : get? (set d k v) k = some v := by
  simp [get?_set]

lemma get?_set_ne (d : Dict κ α) {k j : κ} (v : α) (h : k ≠ j) : get? (set d k v) j = get? d j := by
  simp [get?_set, h]

lemma get?_setdefault (d : Dict κ α) (k j : κ) (v : α) :
    get? (setdefault d k v) j = (get? d j).or (if j = k then some v else none) := by
  rw [setdefault]
  cases hk : get? d k with
  | some w =>
    rcases eq_or_ne j k with rfl | hjk
    · simp [hk]
    · simp [hjk]
  | none =>
    rcases eq_or_ne j k with rfl | hjk
    · simp [hk]
    · simp [get?_set_ne _ _ hjk.symm, hjk]

@[simp] lemma set_set (d : Dict κ α) (k : κ) (v w : α) : set (set d k v) k w = set d k w := by
  induction d with
  | nil => simp [set]
  | cons kv d ih =>
    simp only [set]
    split_ifs with h
    · simp [set, h]
    · simp [set, h, ih]

lemma set_of_get? {d : Dict κ α} {k : κ} {v : α} (h : get? d k = some v) : set d k v = d := by
  induction d with
  | nil => simp at h
  | cons kv d ih =>
    obtain ⟨j, w⟩ := kv
    rw [get?_cons] at h
    simp only [set]
    split_ifs at h ⊢ <;> simp_all

lemma set_comm {d : Dict κ α} {j k : κ} (hjk : j ≠ k) (hj : j ∈ keys d) (v w : α) :
    set (set d j v) k w = set (set d k w) j v := by
  induction d with
  | nil => simp [keys] at hj
  | cons kv d ih =>
    obtain ⟨i, x⟩ := kv
    simp only [keys, List.map_cons, List.mem_cons] at hj
    simp only [set]
    by_cases hij : i = j
    · subst hij
      simp [set, hjk]
    · by_cases hik : i = k
      · subst hik
        simp [set, hij]
      · have hj' : j ∈ keys d := hj.resolve_left (Ne.symm hij)
        simp [set, hij, hik, ih hj']

lemma mem_keys_of_get? {d : Dict κ α} {k : κ} {v : α} (h : get? d k = some v) : k ∈ keys d := by
  induction d with
  | nil => simp at h
  | cons kv d ih =>
    obtain ⟨i, w⟩ := kv
    rw [get?_cons] at h
    split_ifs at h with hi
    · simp [keys, hi]
    · exact List.mem_cons_of_mem _ (ih h)

lemma mem_of_get? {d : Dict κ α} {k : κ} {v : α} (h : get? d k = some v) : (k, v) ∈ d := by
  induction d with
  | nil => simp at h
  | cons kv d ih =>
    obtain ⟨i, w⟩ := kv
    rw [get?_cons] at h
    split_ifs at h with hi
    · simp only [Option.some.injEq] at h
      simp [hi, h]
    · exact List.mem_cons_of_mem _ (ih h)

lemma get?_of_mem {d : Dict κ α} (hd : (keys d).Nodup) {k : κ} {v : α}
    (h : (k, v) ∈ d) : get? d k = some v := by
  induction d with
  | nil => simp at h
  | cons kv d ih =>
    obtain ⟨j, w⟩ := kv
    obtain ⟨hj, hd⟩ := List.nodup_cons.mp hd
    rw [get?_cons]
    rcases List.mem_cons.mp h with heq | hmem
    · obtain ⟨rfl, rfl⟩ := Prod.mk.inj heq
      simp
    · have hne : j ≠ k := by
        rintro rfl
        exact hj (List.mem_map.mpr ⟨_, hmem, rfl⟩)
      simp [hne, ih hd hmem]

lemma get?_eq_none {d : Dict κ α} {k : κ} : get? d k = none ↔ k ∉ keys d := by
  induction d with
  | nil => simp [keys]
  | cons kv d ih =>
    obtain ⟨i, w⟩ := kv
    rw [get?_cons]
    by_cases hi : i = k
    · simp [keys, hi]
    · have hk : k ≠ i := fun he => hi he.symm
      simpa [keys, hi, hk] using ih

lemma keys_set (d : Dict κ α) (k : κ) (v : α) :
    keys (set d k v) = if k ∈ keys d then keys d else keys d ++ [k] := by
  induction d with
  | nil => simp [set, keys]
  | cons kv d ih =>
    obtain ⟨i, w⟩ := kv
    by_cases hi : i = k
    · simp [set, keys, hi]
    · have hk : k ≠ i := fun he => hi he.symm
      have hcons : keys (set ((i, w) :: d) k v) = i :: keys (set d k v) := by
        simp [set, hi, keys]
      rw [hcons, ih]
      by_cases hm : k ∈ keys d
      · rw [if_pos hm, if_pos (by simp [keys] at hm ⊢; exact Or.inr hm)]
        rfl
      · rw [if_neg hm, if_neg (by simp [keys] at hm ⊢; exact ⟨hk, hm⟩)]
        rfl

lemma mem_keys_set (d : Dict κ α) (k j : κ) (v : α) : j ∈ keys (set d k v) ↔ j ∈ keys d ∨ j = k := by
  rw [keys_set]
  split_ifs with hk
  · exact ⟨.inl, fun h => h.elim id fun he => he ▸ hk⟩
  · simp

lemma keys_nodup_set {d : Dict κ α} (h : (keys d).Nodup) (k : κ) (v : α) :
    (keys (set d k v)).Nodup := by
  rw [keys_set]
  split_ifs with hk
  · exact h
  · exact List.nodup_append.mpr ⟨h, by simp, by rintro a ha b hb rfl; simp at hb; exact hk (hb ▸ ha)⟩

lemma mem_set {d : Dict κ α} (h : (keys d).Nodup) (k : κ) (v : α) (kv : κ × α) :
    kv ∈ set d k v ↔ kv = (k, v) ∨ (kv ∈ d ∧ kv.1 ≠ k) := by
  induction d with
  | nil => simp [set]
  | cons x d ih =>
    obtain ⟨j, w⟩ := x
    obtain ⟨hj, hd⟩ := List.nodup_cons.mp h
    have hmem : ∀ y ∈ d, y.1 ∈ keys d := fun y hy => List.mem_map_of_mem hy
    simp only [set]
    split_ifs with hjk
    · subst hjk
      have hne : kv ∈ d → kv.1 ≠ j := fun hy he => hj (he ▸ hmem kv hy)
      simp only [List.mem_cons]
      constructor
      · rintro (he | hy)
        · exact .inl he
        · exact .inr ⟨.inr hy, hne hy⟩
      · rintro (he | ⟨rfl | hy, hk⟩)
        · exact .inl he
        · exact absurd rfl hk
        · exact .inr hy
    · simp only [List.mem_cons, ih hd]
      constructor
      · rintro (rfl | he | ⟨hy, hk⟩)
        · exact .inr ⟨.inl rfl, hjk⟩
        · exact .inl he
        · exact .inr ⟨.inr hy, hk⟩
      · rintro (he | ⟨rfl | hy, hk⟩)
        · exact .inr (.inl he)
        · exact .inl rfl
        · exact .inr (.inr ⟨hy, hk⟩)

lemma set_of_not_mem {d : Dict κ α} {k : κ} (h : k ∉ keys d) (v : α) :
    set d k v = d ++ [(k, v)] := by
  induction d with
  | nil => rfl
  | cons kv d ih =>
    obtain ⟨i, w⟩ := kv
    simp only [keys, List.map_cons, List.mem_cons, not_or] at h
    simp only [set, if_neg (Ne.symm h.1), List.cons_append, ih h.2]

lemma update_of_nodup (d ps : List (κ × α)) (h : (keys (d ++ ps)).Nodup) :
    update d ps = d ++ ps := by
  induction ps generalizing d with
  | nil => simp [update]
  | cons kv ps ih =>
    obtain ⟨i, w⟩ := kv
    have hi : i ∉ keys d := by
      intro hm
      simp only [keys, List.map_append, List.map_cons] at h
      exact (List.nodup_append.mp h).2.2 i hm i (by simp) rfl
    have hs : update d ((i, w) :: ps) = update (d ++ [(i, w)]) ps := by
      simp [update, set_of_not_mem hi]
    rw [hs, ih (d ++ [(i, w)]) (by simpa using h)]
    simp

lemma ofPairs_of_nodup {ps : List (κ × α)} (h : (keys ps).Nodup) : ofPairs ps = ps := by
  simpa [ofPairs] using update_of_nodup [] ps (by simpa using h)

lemma keys_nodup_update {d : Dict κ α} (h : (keys d).Nodup) (e : List (κ × α)) :
    (keys (update d e)).Nodup := by
  induction e generalizing d with
  | nil => exact h
  | cons kv e ih => exact ih (keys_nodup_set h kv.1 kv.2)

lemma get?_map (f : α → β) (d : Dict κ α) (k : κ) :
    get? (d.map fun kv => (kv.1, f kv.2)) k = (get? d k).map f := by
  induction d with
  | nil => rfl
  | cons kv d ih =>
    obtain ⟨i, w⟩ := kv
    rw [List.map_cons, get?_cons, get?_cons, ih]
    split_ifs <;> rfl

lemma get?_update_of_not_mem {d e : List (κ × α)} {k : κ} (h : k ∉ keys e) :
    get? (update d e) k = get? d k := by
  induction e generalizing d with
  | nil => rfl
  | cons kv e ih =>
    rw [keys, List.map_cons, List.mem_cons, not_or] at h
    exact (ih h.2).trans (get?_set_ne d kv.2 (Ne.symm h.1))

lemma get?_update {d ps : List (κ × α)} (hps : (keys ps).Nodup) (k : κ) :
    get? (update d ps) k = (get? ps k).or (get? d k) := by
  induction ps generalizing d with
  | nil => rfl
  | cons p ps ih =>
    obtain ⟨j, v⟩ := p
    obtain ⟨hj, hps⟩ := List.nodup_cons.mp hps
    have hstep : update d ((j, v) :: ps) = update (set d j v) ps := rfl
    rw [hstep, ih hps, get?_set, get?_cons]
    split_ifs with hk
    · subst hk
      rw [get?_eq_none.mpr hj]
      rfl
    · rfl

lemma get?_update_of_mem (d : List (κ × α)) {ps : List (κ × α)} {k : κ} (h : k ∈ keys ps) :
    ∃ v, get? (update d ps) k = some v ∧ (k, v) ∈ ps := by
  induction ps using List.reverseRecOn with
  | nil => simp [keys] at h
  | append_singleton ps p ih =>
    have hstep : update d (ps ++ [p]) = set (update d ps) p.1 p.2 := by simp [update]
    rw [hstep, get?_set]
    split_ifs with hk
    · subst hk
      exact ⟨p.2, rfl, by simp⟩
    · have hold : k ∈ keys ps := by
        have hor : k ∈ keys ps ∨ k = p.1 := by simpa [keys] using h
        exact hor.resolve_right (Ne.symm hk)
      obtain ⟨v, hget, hmem⟩ := ih hold
      exact ⟨v, hget, List.mem_append_left _ hmem⟩

lemma mem_of_get?_update {d ps : List (κ × α)} {k : κ} {v : α} (h : get? (update d ps) k = some v) :
    (k, v) ∈ ps ∨ get? d k = some v := by
  induction ps generalizing d with
  | nil => exact .inr h
  | cons p ps ih =>
    rcases ih (d := set d p.1 p.2) h with hmem | hget
    · exact .inl (List.mem_cons_of_mem _ hmem)
    · rw [get?_set] at hget
      split_ifs at hget with hk
      · obtain rfl := Option.some.inj hget
        exact .inl (by simp [← hk])
      · exact .inr hget

lemma mem_of_get?_ofPairs {ps : List (κ × α)} {k : κ} {v : α} (h : get? (ofPairs ps) k = some v) :
    (k, v) ∈ ps := by
  simpa using mem_of_get?_update h

lemma mem_keys_update (d ps : List (κ × α)) (k : κ) :
    k ∈ keys (update d ps) ↔ k ∈ keys d ∨ k ∈ keys ps := by
  induction ps generalizing d with
  | nil => simp [update, keys]
  | cons p ps ih =>
    have h := ih (set d p.1 p.2)
    rw [mem_keys_set, or_assoc] at h
    have hcons : k ∈ keys (p :: ps) ↔ k = p.1 ∨ k ∈ keys ps := by simp [keys]
    rw [hcons, ← h]
    rfl

lemma mem_keys_ofPairs (ps : List (κ × α)) (k : κ) : k ∈ keys (ofPairs ps) ↔ k ∈ ps.map Prod.fst := by
  rw [ofPairs, mem_keys_update]
  simp [keys]

@[simp] lemma mem_firstOccurrences {xs : List κ} {x : κ} : x ∈ firstOccurrences xs ↔ x ∈ xs := by
  rw [firstOccurrences, mem_keys_ofPairs]
  simp

lemma flatten_extendAt (d : Dict κ (List α)) (k : κ) (xs : List α) :
    ((extendAt d k xs).map Prod.snd).flatten.Perm ((d.map Prod.snd).flatten ++ xs) := by
  induction d with
  | nil => simp [extendAt, set]
  | cons kv d ih =>
    obtain ⟨j, w⟩ := kv
    by_cases hj : j = k
    · subst hj
      simp only [extendAt, get?_cons, set, if_true, List.map_cons, List.flatten_cons,
        Option.getD_some, List.append_assoc]
      exact List.Perm.append_left w List.perm_append_comm
    · simp only [extendAt, get?_cons, set, if_neg hj, List.map_cons, List.flatten_cons,
        List.append_assoc] at ih ⊢
      exact List.Perm.append_left w ih

lemma firstOccurrences_concat (xs : List κ) (x : κ) : firstOccurrences (xs ++ [x]) =
      if x ∈ xs then firstOccurrences xs else firstOccurrences xs ++ [x] := by
  have h : firstOccurrences (xs ++ [x]) =
      keys (set (ofPairs (xs.map fun x => (x, ()))) x ()) := by
    simp [firstOccurrences, ofPairs, update, List.foldl_append]
  rw [h, keys_set]
  have hmem : x ∈ keys (ofPairs (xs.map fun x => (x, ()))) ↔ x ∈ xs := mem_firstOccurrences
  simp only [hmem]
  rfl

lemma firstOccurrences_nodup (xs : List κ) : (firstOccurrences xs).Nodup :=
  keys_nodup_update (by simp [keys]) _

lemma firstOccurrences_map {κ' : Type*} [DecidableEq κ'] (f : κ → κ') (xs : List κ)
    (hf : ∀ x ∈ xs, ∀ y ∈ xs, f x = f y → x = y) :
    firstOccurrences (xs.map f) = (firstOccurrences xs).map f := by
  induction xs using List.reverseRecOn with
  | nil => rfl
  | append_singleton xs x ih =>
    have ih' := ih fun a ha b hb => hf a (by simp [ha]) b (by simp [hb])
    have hmem : f x ∈ xs.map f ↔ x ∈ xs := by
      refine ⟨fun h => ?_, List.mem_map_of_mem⟩
      obtain ⟨y, hy, he⟩ := List.mem_map.mp h
      exact hf y (by simp [hy]) x (by simp) he ▸ hy
    rw [List.map_append, List.map_singleton, firstOccurrences_concat, firstOccurrences_concat, ih']
    simp only [hmem]
    split_ifs <;> simp

lemma get?_map_pair (ks : List κ) (v : κ → α) (k : κ) :
    get? (ks.map fun j => (j, v j)) k = if k ∈ ks then some (v k) else none := by
  induction ks with
  | nil => simp
  | cons j ks ih =>
    rw [List.map_cons, get?_cons, ih]
    by_cases hj : j = k
    · simp [hj]
    · simp [hj, Ne.symm hj]

lemma set_map_pair (ks : List κ) (hks : ks.Nodup) (v : κ → α) (k : κ) (w : α) (hk : k ∈ ks) :
    set (ks.map fun j => (j, v j)) k w = ks.map fun j => (j, if j = k then w else v j) := by
  induction ks with
  | nil => simp at hk
  | cons j ks ih =>
    obtain ⟨hj, hnd⟩ := List.nodup_cons.mp hks
    by_cases hjk : j = k
    · subst hjk
      simp only [List.map_cons, set, if_true]
      congr 1
      refine List.map_congr_left fun a ha => ?_
      have hne : a ≠ j := fun he => hj (he ▸ ha)
      rw [if_neg hne]
    · have hk' : k ∈ ks := (List.mem_cons.mp hk).resolve_left (Ne.symm hjk)
      simp only [List.map_cons, set, if_neg hjk, ih hnd hk']

theorem foldl_extendAt (f : β → κ) (v : β → List α) (xs : List β) :
    xs.foldl (fun d x => extendAt d (f x) (v x)) [] =
      (firstOccurrences (xs.map f)).map fun k => (k, (xs.filter fun x => f x = k).flatMap v) := by
  induction xs using List.reverseRecOn with
  | nil => rfl
  | append_singleton xs x ih =>
    rw [List.foldl_append, List.foldl_cons, List.foldl_nil, ih, extendAt, get?_map_pair,
      List.map_append, List.map_singleton, firstOccurrences_concat]
    simp only [mem_firstOccurrences]
    by_cases hx : f x ∈ xs.map f
    · simp only [if_pos hx, Option.getD_some]
      rw [set_map_pair _ (firstOccurrences_nodup _) _ _ _ (mem_firstOccurrences.mpr hx)]
      refine List.map_congr_left fun k _ => ?_
      by_cases hk : k = f x
      · simp [hk, List.filter_append]
      · simp [hk, Ne.symm hk, List.filter_append]
    · simp only [if_neg hx, Option.getD_none, List.nil_append]
      have hnone : xs.filter (fun y => f y = f x) = [] := by
        refine List.filter_eq_nil_iff.mpr fun y hy he => hx ?_
        exact List.mem_map.mpr ⟨y, hy, by simpa using he⟩
      rw [set_of_not_mem, List.map_append, List.map_singleton]
      · congr 1
        · refine List.map_congr_left fun k hk => ?_
          have hne : f x ≠ k := fun he => hx (he ▸ mem_firstOccurrences.mp hk)
          simp [List.filter_append, hne]
        · simp [List.filter_append, hnone]
      · simpa [keys] using hx

lemma get?_ofPairs (ps : List (κ × α)) (k : κ) :
    get? (ofPairs ps) k = ((ps.filter fun p => p.1 = k).getLast?).map Prod.snd := by
  induction ps using List.reverseRecOn with
  | nil => rfl
  | append_singleton ps p ih =>
    have hset : ofPairs (ps ++ [p]) = set (ofPairs ps) p.1 p.2 := by
      simp [ofPairs, update, List.foldl_append]
    rw [hset, get?_set, ih, List.filter_append]
    by_cases hp : p.1 = k
    · simp [hp]
    · simp [hp]

lemma get?_ofPairs_map_pair (ks : List κ) (v : κ → α) (k : κ) :
    get? (ofPairs (ks.map fun j => (j, v j))) k = if k ∈ ks then some (v k) else none := by
  induction ks using List.reverseRecOn with
  | nil => rfl
  | append_singleton ks j ih =>
    have hset : ofPairs ((ks ++ [j]).map fun j => (j, v j)) =
        set (ofPairs (ks.map fun j => (j, v j))) j (v j) := by
      simp [ofPairs, update, List.foldl_append]
    rw [hset, get?_set, ih]
    by_cases hj : j = k
    · simp [hj]
    · simp [hj, Ne.symm hj]

lemma getElem?_of_get?_places {key : β → κ} {xs : List β} {k : κ} {i : ℕ}
    (h : get? (places key xs) k = some i) : ∃ x, xs[i]? = some x ∧ k = key x := by
  obtain ⟨⟨x, j⟩, hx, heq⟩ := List.mem_map.mp (mem_of_get?_ofPairs h)
  obtain ⟨rfl, rfl⟩ := Prod.mk.inj heq
  exact ⟨x, List.mk_mem_zipIdx_iff_getElem?.mp hx, rfl⟩

lemma get?_places {key : β → κ} {xs : List β} (hd : (xs.map key).Nodup) {i : ℕ} {x : β}
    (h : xs[i]? = some x) : get? (places key xs) (key x) = some i := by
  have hkeys : keys (xs.zipIdx.map fun p => (key p.1, p.2)) = xs.map key := by
    rw [keys, List.map_map]
    conv_rhs => rw [← List.zipIdx_map_fst 0 xs, List.map_map]
    rfl
  rw [places, ofPairs_of_nodup (hkeys ▸ hd)]
  exact get?_of_mem (hkeys ▸ hd) (List.mem_map.mpr ⟨(x, i), List.mem_zipIdx_iff_getElem?.mpr h, rfl⟩)

end AgentTrajectory.PyDict
