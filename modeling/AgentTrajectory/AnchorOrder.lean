import AgentTrajectory.DetectedEvents

/-! Whether the order of the rows decides the anchor. `max` takes the first of the rows that tie
for the latest timestamp, so the order is out of it exactly when those rows have one id. -/
namespace AgentTrajectory.SessionCorrections
open PyText PyDict PyJson PyValue TaskStitch RouteDay CorrectionCensus

variable {c : Option Row}

/-- The rows that `by_id` can hold for the corrector, depending on the order. -/
def CorrectorRow (rows : List Row) (cid : Json) : Option Row → Prop
  | some r => r ∈ rows ∧ cid = .str r.msgId
  | none => hashable cid = true ∧ ∀ r ∈ rows, cid ≠ .str r.msgId

def matchesBefore (hits : List Row) (c : Option Row) : List Row :=
  let earlier := hits.filter fun r => c.any fun c => decide (r.ts < c.ts)
  if earlier = [] then hits else earlier

/-- A latest one of them. -/
def Tied (hits : List Row) (c : Option Row) (p : Row) : Prop :=
  p ∈ matchesBefore hits c ∧ ∀ r ∈ matchesBefore hits c, r.ts ≤ p.ts

lemma latestMatch_eq (hits : List Row) (c : Option Row) : latestMatch hits c = latest (matchesBefore hits c) := by
  rw [latestMatch, matchesBefore]
  split_ifs <;> rfl

lemma mem_matchesBefore {hits hits' : List Row} (h : ∀ r, r ∈ hits' ↔ r ∈ hits) (c : Option Row) (p : Row) :
    p ∈ matchesBefore hits' c ↔ p ∈ matchesBefore hits c := by
  have hnil : (hits'.filter fun r => c.any fun c => decide (r.ts < c.ts)) = [] ↔
      (hits.filter fun r => c.any fun c => decide (r.ts < c.ts)) = [] := by
    simp only [List.filter_eq_nil_iff, h]
  rw [matchesBefore, matchesBefore]
  simp only [hnil]
  split_ifs
  · exact h p
  · rw [List.mem_filter, List.mem_filter, h]

lemma tied_congr {hits hits' : List Row} (h : ∀ r, r ∈ hits' ↔ r ∈ hits) (c : Option Row) (p : Row) :
    Tied hits' c p ↔ Tied hits c p := by
  simp only [Tied, mem_matchesBefore h]

lemma tied_of_latestMatch {hits : List Row} {p : Row} (h : latestMatch hits c = some p) :
    Tied hits c p := by
  rw [latestMatch_eq] at h
  exact latest_mem h

lemma mem_of_tied {hits : List Row} {p : Row} (h : Tied hits c p) : p ∈ hits := by
  have hp := h.1
  rw [matchesBefore] at hp
  split_ifs at hp
  · exact hp
  · exact List.mem_of_mem_filter hp

lemma exists_latestMatch {hits : List Row} (h : hits ≠ []) (c : Option Row) :
    ∃ p, latestMatch hits c = some p := by
  rw [latestMatch_eq]
  refine latest_isSome ?_
  rw [matchesBefore]
  split_ifs with hnil
  · exact h
  · exact hnil

lemma get?_byId_eq (rows : List Row) (s : PyStr) :
    get? (byId rows) s = (rows.filter fun r => decide (r.msgId = s)).getLast? := by
  rw [byId, get?_ofPairs, List.filter_map, List.getLast?_map, Option.map_map]
  simp [Function.comp_def]

lemma lookup_correctorRow {rows rows' : List Row} (hp : rows'.Perm rows) {cid : Json}
    (h : lookup (byId rows') cid = .ok c) : CorrectorRow rows cid c := by
  cases c with
  | some r =>
    obtain ⟨rfl, hr⟩ := lookup_byId h
    exact ⟨hp.mem_iff.mp hr, rfl⟩
  | none =>
    cases cid with
    | str s =>
      refine ⟨rfl, fun r hr heq => ?_⟩
      have hnone := Except.ok.inj h
      rw [get?_byId_eq, List.getLast?_eq_none_iff, List.filter_eq_nil_iff] at hnone
      exact hnone r (hp.mem_iff.mpr hr) (by simpa using (Json.str.inj heq).symm)
    | arr xs => simp [lookup] at h
    | obj d => simp [lookup] at h
    | _ => exact ⟨rfl, by simp⟩

lemma quoteMatches_perm {rows rows' : List Row} (hp : rows'.Perm rows) (q : PyStr) :
    (quoteMatches rows' q).Perm (quoteMatches rows q) := (hp.filter _).filter _

lemma latest_mem_left {xs ys : List Row} {m x : Row} (h : latest (xs ++ ys) = some x) (hm : m ∈ xs)
    (hmax : ∀ r ∈ xs ++ ys, r.ts ≤ m.ts) : x ∈ xs := by
  induction xs generalizing m x with
  | nil => simp at hm
  | cons r xs ih =>
    rw [List.cons_append, latest] at h
    cases hrest : latest (xs ++ ys) with
    | none =>
      rw [hrest] at h
      exact Option.some.inj h ▸ List.mem_cons_self
    | some s =>
      rw [hrest] at h
      have hx : (if r.ts < s.ts then s else r) = x := Option.some.inj h
      split_ifs at hx with hlt
      · subst hx
        rcases List.mem_cons.mp hm with rfl | hm
        · have hle := hmax s (List.mem_cons_of_mem _ (latest_mem hrest).1)
          omega
        · exact List.mem_cons_of_mem _ (ih hrest hm fun r' hr' => hmax r' (List.mem_cons_of_mem _ hr'))
      · exact hx ▸ List.mem_cons_self

lemma matchesBefore_eq_filter (hits : List Row) (c : Option Row) :
    ∃ keep : Row → Bool, matchesBefore hits c = hits.filter keep := by
  rw [matchesBefore]
  split_ifs
  · exact ⟨fun _ => true, by simp⟩
  · exact ⟨_, rfl⟩

lemma pick_of_front {front rest : List Row} {q : PyStr} {p : Row} (hp : p ∈ front)
    (hfront : ∀ r ∈ front, r.msgId = p.msgId) (ht : Tied (quoteMatches (front ++ rest) q) c p) :
    ∃ x, latestMatch (quoteMatches (front ++ rest) q) c = some x ∧ x.msgId = p.msgId := by
  have hsplit : quoteMatches (front ++ rest) q = quoteMatches front q ++ quoteMatches rest q := by
    simp [quoteMatches]
  have hhit := mem_of_tied ht
  have hpfront : p ∈ quoteMatches front q := by
    simp only [quoteMatches, List.mem_filter] at hhit ⊢
    exact ⟨⟨hp, hhit.1.2⟩, hhit.2⟩
  obtain ⟨x, hx⟩ := exists_latestMatch (List.ne_nil_of_mem hhit) c
  refine ⟨x, hx, ?_⟩
  obtain ⟨keep, hkeep⟩ := matchesBefore_eq_filter (quoteMatches (front ++ rest) q) c
  rw [latestMatch_eq, hkeep, hsplit, List.filter_append] at hx
  obtain ⟨hmem, hmax⟩ := ht
  rw [hkeep, hsplit, List.filter_append] at hmax
  rw [hkeep] at hmem
  have hxfront := latest_mem_left hx (List.mem_filter.mpr ⟨hpfront, (List.mem_filter.mp hmem).2⟩) hmax
  exact hfront x (List.mem_of_mem_filter (List.mem_of_mem_filter (List.mem_of_mem_filter hxfront)))

lemma exists_front {rows : List Row} {cid : Json} (hc : CorrectorRow rows cid c) {p : Row}
    (hp : p ∈ rows) :
    ∃ front rest, (front ++ rest).Perm rows ∧ p ∈ front ∧ (∀ r ∈ front, r.msgId = p.msgId) ∧
      lookup (byId (front ++ rest)) cid = .ok c := by
  cases c with
  | none =>
    refine ⟨[p], rows.erase p, (List.perm_cons_erase hp).symm, by simp, by simp, ?_⟩
    obtain ⟨hhash, hother⟩ := hc
    cases cid with
    | str s =>
      have hnone : ([p] ++ rows.erase p).filter (fun r => decide (r.msgId = s)) = [] := by
        rw [List.filter_eq_nil_iff]
        intro r hr heq
        exact hother r ((List.perm_cons_erase hp).symm.mem_iff.mp hr) (by simpa using (of_decide_eq_true heq).symm)
      rw [lookup, get?_byId_eq, hnone]
      rfl
    | arr xs => simp [hashable] at hhash
    | obj d => simp [hashable] at hhash
    | _ => rfl
  | some r =>
    obtain ⟨hr, rfl⟩ := hc
    by_cases hrp : r = p
    · subst hrp
      refine ⟨(rows.filter fun x => decide (x.msgId = r.msgId)).erase r ++ [r],
        rows.filter fun x => !decide (x.msgId = r.msgId), ?_, by simp, ?_, ?_⟩
      · have hmem : r ∈ rows.filter fun x => decide (x.msgId = r.msgId) := by simpa using hr
        refine List.Perm.trans (List.Perm.append_right _ ?_) (List.filter_append_perm _ rows)
        exact (List.perm_append_singleton _ _).trans (List.perm_cons_erase hmem).symm
      · intro x hx
        rcases List.mem_append.mp hx with hx | hx
        · simpa using List.of_mem_filter (List.mem_of_mem_erase hx)
        · rw [List.mem_singleton.mp hx]
      · rw [lookup, get?_byId_eq, List.filter_append, List.filter_append]
        simp
    · have hr' : r ∈ rows.erase p := (List.mem_erase_of_ne hrp).mpr hr
      refine ⟨[p], (rows.erase p).erase r ++ [r], ?_, by simp, by simp, ?_⟩
      · refine List.Perm.trans (List.Perm.cons p ?_) (List.perm_cons_erase hp).symm
        exact (List.perm_append_singleton _ _).trans (List.perm_cons_erase hr').symm
      · rw [lookup, get?_byId_eq, ← List.append_assoc, List.filter_append]
        simp

lemma lookup_eq_error {α : Type} {d : Dict PyStr α} {v : Json} (h : hashable v = false) :
    lookup d v = .error .typeError := by
  cases v <;> simp [hashable, lookup] at h ⊢

lemma resolveAnchor_anchor {rows : List Row} {e : Correction} {q : PyStr} (hq : normQuote e = .ok q)
    (hlen : 4 ≤ q.length) (hhit : quoteMatches rows q ≠ [])
    (hc : lookup (byId rows) (correctorId e) = .ok c) {p : Row}
    (hp : latestMatch (quoteMatches rows q) c = some p) :
    (resolveAnchor rows e).map anchorId = .ok (.str p.msgId) := by
  obtain ⟨a, ha⟩ := List.exists_mem_of_ne_nil _ hhit
  have hpick : anchorPick rows e = .ok (some p) := by
    rw [anchorPick_of_quote hq hlen ha, hc, Except.map, hp]
  cases hres : resolveAnchor rows e with
  | error err =>
    rw [resolveAnchor, hpick] at hres
    dsimp only [bind, Except.bind] at hres
    split_ifs at hres
  | ok e₁ =>
    obtain ⟨-, -, pick, hpick', hset⟩ := resolveAnchor_ok hres
    rw [hpick] at hpick'
    rw [Except.map, hset p (Except.ok.inj hpick').symm]

lemma resolveAnchor_error {rows : List Row} {e : Correction} {q : PyStr} (hq : normQuote e = .ok q)
    (hlen : 4 ≤ q.length) (hhit : quoteMatches rows q ≠ []) (hc : hashable (correctorId e) = false) :
    (resolveAnchor rows e).map anchorId = .error .typeError := by
  obtain ⟨a, ha⟩ := List.exists_mem_of_ne_nil _ hhit
  rw [resolveAnchor, anchorPick_of_quote hq hlen ha, lookup_eq_error hc]
  rfl

lemma exists_lookup {α : Type} (d : Dict PyStr α) {v : Json} (h : hashable v = true) :
    ∃ c, lookup d v = .ok c := by
  cases v <;> simp [hashable, lookup] at h ⊢

/-- For an event whose quote has a match, the anchor is that of every event with the same quote
and corrector, over the rows in every order, exactly when all the rows that can tie for the pick
have one id. -/
theorem resolveAnchor_order_free_iff (rows : List Row) (e : Correction) (q : PyStr) (hq : normQuote e = .ok q)
    (hlen : 4 ≤ q.length) (hhit : quoteMatches rows q ≠ []) :
    (∀ rows' e', rows'.Perm rows → normQuote e' = .ok q → correctorId e' = correctorId e →
        (resolveAnchor rows' e').map anchorId = (resolveAnchor rows e).map anchorId) ↔
      ∀ c c', CorrectorRow rows (correctorId e) c → CorrectorRow rows (correctorId e) c' → ∀ p p',
        Tied (quoteMatches rows q) c p → Tied (quoteMatches rows q) c' p' → p.msgId = p'.msgId := by
  have hhits : ∀ {rows' : List Row}, rows'.Perm rows → quoteMatches rows' q ≠ [] := fun hp hnil =>
    hhit (List.perm_nil.mp (hnil ▸ (quoteMatches_perm hp q).symm))
  have htied : ∀ {rows' : List Row}, rows'.Perm rows → ∀ c p,
      Tied (quoteMatches rows' q) c p ↔ Tied (quoteMatches rows q) c p := fun hp c p =>
    tied_congr (fun r => (quoteMatches_perm hp q).mem_iff) c p
  constructor
  · intro h
    have hanchor : ∀ c p, CorrectorRow rows (correctorId e) c → Tied (quoteMatches rows q) c p →
        (resolveAnchor rows e).map anchorId = .ok (.str p.msgId) := by
      intro c p hc hp
      have hprow : p ∈ rows := List.mem_of_mem_filter (List.mem_of_mem_filter (mem_of_tied hp))
      obtain ⟨front, rest, hperm, hpfront, hfront, hlook⟩ := exists_front hc hprow
      obtain ⟨x, hx, hid⟩ := pick_of_front hpfront hfront ((htied hperm c p).mpr hp)
      rw [← h _ e hperm hq rfl, resolveAnchor_anchor hq hlen (hhits hperm) hlook hx, hid]
    intro c c' hc hc' p p' hp hp'
    have heq := (hanchor c p hc hp).symm.trans (hanchor c' p' hc' hp')
    exact Json.str.inj (Except.ok.inj heq)
  · intro h rows' e' hperm hq' hc'
    by_cases hhash : hashable (correctorId e) = true
    · obtain ⟨c, hc⟩ := exists_lookup (byId rows) hhash
      obtain ⟨c', hlook'⟩ := exists_lookup (byId rows') hhash
      obtain ⟨p, hp⟩ := exists_latestMatch hhit c
      obtain ⟨p', hp'⟩ := exists_latestMatch (hhits hperm) c'
      have hid := h c c' (lookup_correctorRow (.refl rows) hc) (lookup_correctorRow hperm hlook') p p'
        (tied_of_latestMatch hp) ((htied hperm c' p').mp (tied_of_latestMatch hp'))
      rw [resolveAnchor_anchor hq hlen hhit hc hp,
        resolveAnchor_anchor hq' hlen (hhits hperm) (hc' ▸ hlook') hp', hid]
    · have hunhash : hashable (correctorId e) = false := by simpa using hhash
      rw [resolveAnchor_error hq hlen hhit hunhash, resolveAnchor_error hq' hlen (hhits hperm) (hc' ▸ hunhash)]

/-- The bot's claim is sent twice in the same second. -/
def claimedTwice : List Row :=
  rowsOf (⟨⟨1, .bot, py "m0", [], py "the port is 8080"⟩, py "bot"⟩ :: deniedClaim)

/-- The rows in another order give another anchor. -/
theorem equal_timestamps_order_decides : ∃ rows', rows'.Perm claimedTwice ∧
      (resolveAnchor claimedTwice (portEvent [])).map anchorId = .ok (.str (py "m0")) ∧
      (resolveAnchor rows' (portEvent [])).map anchorId = .ok (.str (py "m1")) :=
  ⟨claimedTwice.reverse, List.reverse_perm _, by decide +kernel, by decide +kernel⟩

theorem resolveAnchor_order_free_iff_claim : normQuote (portEvent []) = .ok (py "portis8080") ∧
      ∀ rows' e', rows'.Perm (rowsOf deniedClaim) → normQuote e' = .ok (py "portis8080") →
        correctorId e' = correctorId (portEvent []) →
        (resolveAnchor rows' e').map anchorId =
          (resolveAnchor (rowsOf deniedClaim) (portEvent [])).map anchorId := by
  refine ⟨by decide +kernel, ?_⟩
  refine (resolveAnchor_order_free_iff (rowsOf deniedClaim) (portEvent []) (py "portis8080") (by decide +kernel)
    (by decide) (by decide +kernel)).mpr ?_
  intro c c' _ _ p p' hp hp'
  have hone : quoteMatches (rowsOf deniedClaim) (py "portis8080") =
    (rowsOf deniedClaim).take 1 := by decide +kernel
  have hmem := mem_of_tied hp
  have hmem' := mem_of_tied hp'
  rw [hone] at hmem hmem'
  rw [List.mem_singleton.mp hmem, List.mem_singleton.mp hmem']

end AgentTrajectory.SessionCorrections
