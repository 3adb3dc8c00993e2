import AgentTrajectory.SessionCorrections
import AgentTrajectory.RouteRuns
import AgentTrajectory.RelatedLists

/-! The guard keeps what it has kept: the corrector moves back towards the anchor, and the
anchor is still the latest match before it. -/
namespace AgentTrajectory.SessionCorrections
open PyText PyDict PyJson PyValue PyRegex TaskStitch RouteDay CorrectionCensus RelatedLists

variable {env : RouteEnv} {rows : List Row}
variable {e : Correction} {es : List Correction}

lemma lookup_byId {v : Json} {r : Row} (h : lookup (byId rows) v = .ok (some r)) :
    v = .str r.msgId ∧ r ∈ rows := by
  cases v with
  | str s =>
    obtain ⟨r', hr', heq⟩ := List.mem_map.mp (mem_of_get?_ofPairs (Except.ok.inj h))
    obtain ⟨rfl, rfl⟩ := Prod.mk.inj heq
    exact ⟨rfl, hr'⟩
  | _ => simp [lookup] at h

lemma lookup_positions {v : Json} {i : ℕ} (h : lookup (positions rows) v = .ok (some i)) :
    ∃ r, rows[i]? = some r ∧ v = .str r.msgId := by
  cases v with
  | str s =>
    obtain ⟨r, hr, rfl⟩ := getElem?_of_get?_places (Except.ok.inj h)
    exact ⟨r, hr, rfl⟩
  | _ => simp [lookup] at h

lemma eq_of_msgId (hd : (rows.map (·.msgId)).Nodup) {r s : Row} (hr : r ∈ rows) (hs : s ∈ rows)
    (h : r.msgId = s.msgId) : r = s := List.inj_on_of_nodup_map hd hr hs h

lemma latest_mem {l : List Row} {a : Row} (h : latest l = some a) : a ∈ l ∧ ∀ r ∈ l, r.ts ≤ a.ts := by
  induction l generalizing a with
  | nil => simp [latest] at h
  | cons r rs ih =>
    rw [latest] at h
    cases hrs : latest rs with
    | none =>
      have hnil : rs = [] := by
        cases rs with
        | nil => rfl
        | cons s rs => cases h' : latest rs <;> simp [latest, h'] at hrs
      rw [hrs] at h
      obtain rfl := Option.some.inj h
      simp [hnil]
    | some s =>
      rw [hrs] at h
      obtain ⟨hmem, hmax⟩ := ih hrs
      obtain rfl := Option.some.inj h
      split_ifs with hlt
      · refine ⟨List.mem_cons_of_mem _ hmem, fun x hx => ?_⟩
        rcases List.mem_cons.mp hx with rfl | hx
        · omega
        · exact hmax x hx
      · refine ⟨List.mem_cons_self, fun x hx => ?_⟩
        rcases List.mem_cons.mp hx with rfl | hx
        · exact le_rfl
        · have := hmax x hx
          omega

lemma latest_isSome {l : List Row} (h : l ≠ []) : ∃ a, latest l = some a := by
  cases l with
  | nil => exact absurd rfl h
  | cons r rs => cases h' : latest rs <;> simp [latest, h']

lemma latestMatch_mem {hits : List Row} {c : Option Row} {a : Row}
    (h : latestMatch hits c = some a) : a ∈ hits := by
  rw [latestMatch] at h
  split_ifs at h with hnil
  · exact (latest_mem h).1
  · exact List.mem_of_mem_filter (latest_mem h).1

lemma latestMatch_earlier {hits : List Row} {c c' a : Row} (h : latestMatch hits (some c) = some a)
    (ha : a.ts < c'.ts) (hc : c'.ts ≤ c.ts) : latestMatch hits (some c') = some a := by
  have hmem := latestMatch_mem h
  have hbefore : a ∈ hits.filter fun r => (some c).any fun c => decide (r.ts < c.ts) :=
    List.mem_filter.mpr ⟨hmem, by simpa using ha.trans_le hc⟩
  rw [latestMatch, if_neg (List.ne_nil_of_mem hbefore)] at h
  have hsame : (hits.filter fun r => (some c').any fun c => decide (r.ts < c.ts)) =
      hits.filter fun r => (some c).any fun c => decide (r.ts < c.ts) := by
    refine List.filter_congr fun r hr => ?_
    simp only [Option.any_some, decide_eq_decide]
    refine ⟨fun hlt => hlt.trans_le hc, fun hlt => ?_⟩
    exact ((latest_mem h).2 r (List.mem_filter.mpr ⟨hr, by simpa using hlt⟩)).trans_lt ha
  rw [latestMatch, hsame, if_neg (List.ne_nil_of_mem hbefore)]
  exact h

structure Sound (env : RouteEnv) (rows : List Row) (e : Correction) (q : PyStr) (a c : Row) : Prop where
  anchor : lookup (byId rows) (anchorId e) = .ok (some a)
  isBot : isBotRow a = true
  quote : normQuote e = .ok q
  long : 4 ≤ q.length
  quoted : contains q (dropSpaces a.text) = true
  corrector : lookup (byId rows) (correctorId e) = .ok (some c)
  human : isHumanRow env c = true
  later : a.ts < c.ts

lemma ite_fault_eq_none {p : Prop} [Decidable p] {r : PyStr} {x : Except PyError (Option PyStr)} :
    (if p then .ok (some r) else x) = .ok none ↔ ¬p ∧ x = .ok none := by
  split_ifs with hp <;> simp [hp]

lemma human_of_correctorFault {a c : Row} (h : correctorFault env rows e a c = .ok none) :
    isHumanRow env c = true ∧ a.ts < c.ts := by
  rw [correctorFault, ite_fault_eq_none, ite_fault_eq_none, ite_fault_eq_none, ite_fault_eq_none] at h
  obtain ⟨-, hp, hb, -, h⟩ := h
  obtain ⟨feedback, -, h⟩ := bind_eq_ok.mp h
  rw [ite_fault_eq_none, ite_fault_eq_none] at h
  simp only [Bool.not_eq_true] at hp hb
  exact ⟨by simp [isHumanRow, hp, hb], not_le.mp h.2.1⟩

lemma sound_of_fault (h : fault env rows e = .ok none) : ∃ q a c, Sound env rows e q a c := by
  obtain ⟨a, ha, h⟩ := bind_eq_ok.mp h
  obtain ⟨c, hc, h⟩ := bind_eq_ok.mp h
  cases a with
  | none => simp at h
  | some a =>
    simp only [ite_fault_eq_none] at h
    obtain ⟨hbot, -, h⟩ := h
    obtain ⟨q, hq, h⟩ := bind_eq_ok.mp h
    rw [ite_fault_eq_none, ite_fault_eq_none] at h
    obtain ⟨hlen, hin, h⟩ := h
    cases c with
    | none => simp at h
    | some c =>
      obtain ⟨hhuman, hlater⟩ := human_of_correctorFault h
      exact ⟨q, a, c, ha, by simpa using hbot, hq, not_lt.mp hlen, by simpa using hin, hc, hhuman, hlater⟩

lemma anchorPick_of_quote {q : PyStr} {a : Row} (hq : normQuote e = .ok q) (hlen : 4 ≤ q.length)
    (ha : a ∈ quoteMatches rows q) :
    anchorPick rows e = (lookup (byId rows) (correctorId e)).map (latestMatch (quoteMatches rows q)) := by
  have hne : (quoteMatches rows q).isEmpty = false := by
    simpa using List.ne_nil_of_mem ha
  have hcond : (decide (q.length < 4) || (quoteMatches rows q).isEmpty) = false := by
    simp [hne, hlen]
  rw [anchorPick, hq]
  simp only [bind, Except.bind, hcond, Bool.false_eq_true, if_false]
  cases lookup (byId rows) (correctorId e) <;> rfl

lemma correctorPick_earlier (hd : (rows.map (·.msgId)).Nodup) (hts : rows.Pairwise fun r s => r.ts ≤ s.ts)
    {p : Row} (h : correctorPick env rows e = .ok (some p)) :
    p ∈ rows ∧ ∃ c, lookup (byId rows) (correctorId e) = .ok (some c) ∧ p.ts ≤ c.ts := by
  obtain ⟨c, hc, h⟩ := bind_eq_ok.mp h
  cases c with
  | none => simp at h
  | some c =>
    simp only at h
    split_ifs at h with hhuman
    · simp at h
    obtain ⟨ai, hai, h⟩ := bind_eq_ok.mp h
    obtain ⟨ci, hci, h⟩ := bind_eq_ok.mp h
    cases ai with
    | none => simp at h
    | some ai =>
      cases ci with
      | none => simp at h
      | some ci =>
        simp only [Except.ok.injEq] at h
        split_ifs at h with hle
        obtain ⟨c', hc', hid⟩ := lookup_positions hci
        obtain ⟨hid', hmem⟩ := lookup_byId hc
        have heq : c' = c := eq_of_msgId hd (List.mem_of_getElem? hc') hmem (Json.str.inj (hid.symm.trans hid'))
        subst heq
        have hp : p ∈ (rows.take ci).drop (ai + 1) := by
          have h' := (Option.filter_eq_some_iff.mp h).1
          rcases Option.or_eq_some_iff.mp h' with hr | ⟨-, hr⟩
          · exact List.mem_of_mem_filter (List.mem_of_mem_filter (List.mem_of_getLast? hr))
          · exact List.mem_of_mem_filter (List.mem_of_getLast? hr)
        obtain ⟨j, hj⟩ := List.mem_iff_getElem?.mp (List.mem_of_mem_drop hp)
        have hlt : j < ci := by
          have := (List.getElem?_eq_some_iff.mp hj).1
          rw [List.length_take] at this
          omega
        rw [List.getElem?_take_of_lt hlt] at hj
        refine ⟨List.mem_of_getElem? hj, c', hc, ?_⟩
        obtain ⟨hjl, rfl⟩ := List.getElem?_eq_some_iff.mp hj
        obtain ⟨hcl, rfl⟩ := List.getElem?_eq_some_iff.mp hc'
        exact List.pairwise_iff_getElem.mp hts j ci hjl hcl hlt

lemma correctorPick_of_human {c : Row} (hc : lookup (byId rows) (correctorId e) = .ok (some c))
    (hh : isHumanRow env c = true) : correctorPick env rows e = .ok none := by
  simp [correctorPick, hc, hh, bind, Except.bind]

/-- The event passes the guard as it is. -/
structure Settled (env : RouteEnv) (rows : List Row) (e : Correction) : Prop where
  anchor : ∃ p, anchorPick rows e = .ok (some p) ∧ anchorId e = .str p.msgId
  corrector : correctorPick env rows e = .ok none
  sound : fault env rows e = .ok none

lemma Settled.resolveAnchor_eq (h : Settled env rows e) : resolveAnchor rows e = .ok e := by
  obtain ⟨p, hp, ha⟩ := h.anchor
  simp [resolveAnchor, hp, ha, bind, Except.bind]

lemma Settled.resolveCorrector_eq (h : Settled env rows e) : resolveCorrector env rows e = .ok e := by
  simp [resolveCorrector, h.corrector, bind, Except.bind]

lemma resolveAnchor_ok {e e' : Correction} (h : resolveAnchor rows e = .ok e') :
    normQuote e' = normQuote e ∧ correctorId e' = correctorId e ∧
      ∃ pick, anchorPick rows e = .ok pick ∧ ∀ p, pick = some p → anchorId e' = .str p.msgId := by
  obtain ⟨pick, hpick, h⟩ := bind_eq_ok.mp h
  cases pick with
  | none =>
    obtain rfl := Except.ok.inj h
    exact ⟨rfl, rfl, none, hpick, by simp⟩
  | some p =>
    simp only at h
    split_ifs at h with ha
    · obtain rfl := Except.ok.inj h
      exact ⟨rfl, rfl, some p, hpick, fun p' hp => Option.some.inj hp ▸ ha⟩
    · obtain rfl := Except.ok.inj h
      refine ⟨?_, ?_, some p, hpick, fun p' hp => Option.some.inj hp ▸ ?_⟩
      · rw [normQuote, getNone_set_ne _ (by simp), getNone_set_ne _ (by simp)]
        rfl
      · rw [correctorId, getNone_set_ne _ (by simp), getNone_set_ne _ (by simp)]
        rfl
      · rw [anchorId, getNone_set, if_pos rfl]

lemma resolveCorrector_ok {e e' : Correction} (h : resolveCorrector env rows e = .ok e') :
    normQuote e' = normQuote e ∧ anchorId e' = anchorId e ∧ ∃ pick, correctorPick env rows e = .ok pick ∧
      (pick = none → e' = e) ∧ ∀ p, pick = some p → correctorId e' = .str p.msgId := by
  obtain ⟨pick, hpick, h⟩ := bind_eq_ok.mp h
  cases pick with
  | none =>
    obtain rfl := Except.ok.inj h
    exact ⟨rfl, rfl, none, hpick, fun _ => rfl, by simp⟩
  | some p =>
    obtain rfl := Except.ok.inj h
    refine ⟨?_, ?_, some p, hpick, by simp, fun p' hp => Option.some.inj hp ▸ ?_⟩
    · simp only [normQuote, update, List.foldl_cons, List.foldl_nil, getNone_set]
      rfl
    · simp only [anchorId, update, List.foldl_cons, List.foldl_nil, getNone_set]
      rfl
    · simp only [correctorId, update, List.foldl_cons, List.foldl_nil, getNone_set]
      rfl

theorem settled_of_guarded (hd : (rows.map (·.msgId)).Nodup) (hts : rows.Pairwise fun r s => r.ts ≤ s.ts)
    {e₀ e₁ e₂ : Correction} (h₁ : resolveAnchor rows e₀ = .ok e₁) (h₂ : resolveCorrector env rows e₁ = .ok e₂)
    (hf : fault env rows e₂ = .ok none) : Settled env rows e₂ := by
  obtain ⟨q, a, c, hs⟩ := sound_of_fault hf
  obtain ⟨hq₁, hc₁, pick, hpick, hset⟩ := resolveAnchor_ok h₁
  obtain ⟨hq₂, ha₂, move, hmove, hstay, hgo⟩ := resolveCorrector_ok h₂
  have hq₀ : normQuote e₀ = .ok q := by rw [← hq₁, ← hq₂, hs.quote]
  obtain ⟨haid, harow⟩ := lookup_byId hs.anchor
  have hhit : a ∈ quoteMatches rows q :=
    List.mem_filter.mpr ⟨List.mem_filter.mpr ⟨harow, hs.isBot⟩, hs.quoted⟩
  -- the anchor is the pick of the first pass
  rw [anchorPick_of_quote hq₀ hs.long hhit] at hpick
  obtain ⟨c₀, hc₀, hlatest⟩ := map_eq_ok.mp hpick
  have hpickA : latestMatch (quoteMatches rows q) c₀ = some a := by
    obtain ⟨p, hp⟩ : ∃ p, latestMatch (quoteMatches rows q) c₀ = some p := by
      rw [latestMatch]
      split_ifs with hnil
      · exact latest_isSome (List.ne_nil_of_mem hhit)
      · exact latest_isSome hnil
    have hpid := hset p (hlatest ▸ hp)
    have hprow : p ∈ rows := List.mem_of_mem_filter (List.mem_of_mem_filter (latestMatch_mem hp))
    have heq : p = a := eq_of_msgId hd hprow harow (Json.str.inj (by rw [← hpid, ← ha₂, haid]))
    rw [hp, heq]
  refine ⟨⟨a, ?_, haid⟩, correctorPick_of_human hs.corrector hs.human, hf⟩
  rw [anchorPick_of_quote hs.quote hs.long hhit, hs.corrector]
  have hpickC : latestMatch (quoteMatches rows q) (some c) = some a := by
    cases move with
    | none =>
      have hsame : c₀ = some c := by
        have hcor := hs.corrector
        rw [hstay rfl, hc₁, hc₀] at hcor
        exact Except.ok.inj hcor
      rwa [← hsame]
    | some p =>
      obtain ⟨hprow, c', hc', hle⟩ := correctorPick_earlier hd hts hmove
      have hpc : p = c := by
        obtain ⟨hid, hrow⟩ := lookup_byId hs.corrector
        exact eq_of_msgId hd hprow hrow (Json.str.inj ((hgo p rfl).symm.trans hid))
      rw [hc₁, hc₀] at hc'
      rw [Except.ok.inj hc'] at hpickA
      exact latestMatch_earlier hpickA hs.later (hpc ▸ hle)
  rw [Except.map, hpickC]

lemma mapM_of_fixed {f : Correction → Except PyError Correction}
    (h : ∀ e ∈ es, f e = .ok e) : es.mapM f = .ok es := by
  refine mapM_eq_ok.mpr (List.forall₂_same.mpr h)

lemma validateEvents_of_sound (h : ∀ e ∈ es, fault env rows e = .ok none) :
    validateEvents env rows es = .ok (es, []) := by
  induction es with
  | nil => rfl
  | cons e es ih =>
    simp [validateEvents, h e (by simp), ih fun x hx => h x (by simp [hx]), bind, Except.bind]

lemma guard_of_settled (h : ∀ e ∈ es, Settled env rows e) :
    guard env rows es = .ok (es, []) := by
  rw [guard, mapM_of_fixed fun e he => (h e he).resolveAnchor_eq]
  simp only [bind, Except.bind]
  rw [mapM_of_fixed fun e he => (h e he).resolveCorrector_eq]
  exact validateEvents_of_sound fun e he => (h e he).sound

lemma mem_validateEvents {es kept dropped : List Correction} (h : validateEvents env rows es = .ok (kept, dropped))
    {x : Correction} : x ∈ kept ↔ x ∈ es ∧ fault env rows x = .ok none := by
  induction es generalizing kept dropped with
  | nil =>
    obtain ⟨rfl, -⟩ := Prod.mk.inj (Except.ok.inj h)
    simp
  | cons e es ih =>
    obtain ⟨reason, hreason, h⟩ := bind_eq_ok.mp h
    obtain ⟨⟨kept', dropped'⟩, hrest, h⟩ := bind_eq_ok.mp h
    cases reason with
    | none =>
      obtain ⟨rfl, -⟩ := Prod.mk.inj (Except.ok.inj h)
      rw [List.mem_cons, List.mem_cons, ih hrest]
      constructor
      · rintro (rfl | ⟨hx, hf⟩)
        · exact ⟨Or.inl rfl, hreason⟩
        · exact ⟨Or.inr hx, hf⟩
      · rintro ⟨rfl | hx, hf⟩
        · exact Or.inl rfl
        · exact Or.inr ⟨hx, hf⟩
    | some r =>
      obtain ⟨rfl, -⟩ := Prod.mk.inj (Except.ok.inj h)
      rw [List.mem_cons, ih hrest]
      constructor
      · exact fun hx => ⟨Or.inr hx.1, hx.2⟩
      · rintro ⟨rfl | hx, hf⟩
        · rw [hreason] at hf
          simp at hf
        · exact ⟨hx, hf⟩

theorem settled_of_kept (hd : (rows.map (·.msgId)).Nodup) (hts : rows.Pairwise fun r s => r.ts ≤ s.ts)
    {events kept dropped : List Correction} (h : guard env rows events = .ok (kept, dropped)) :
    ∀ e ∈ kept, Settled env rows e := by
  obtain ⟨es₁, h₁, h⟩ := bind_eq_ok.mp h
  obtain ⟨es₂, h₂, h⟩ := bind_eq_ok.mp h
  intro e he
  obtain ⟨hmem, hf⟩ := (mem_validateEvents h).mp he
  obtain ⟨e₁, hmem₁, he₂⟩ := forall₂_mem_right (mapM_eq_ok.mp h₂) hmem
  obtain ⟨e₀, -, he₁⟩ := forall₂_mem_right (mapM_eq_ok.mp h₁) hmem₁
  exact settled_of_guarded hd hts he₁ he₂ hf

lemma getNone_tagged (sid : ℕ) (e : Correction) {k : PyStr} (h : py "_session" ≠ k) :
    getNone (tagged sid e) k = getNone e k := getNone_set_ne e h _

section Congr
variable {e e' : Correction}
  (hsame : ∀ k ∈ ["anchor_msg_id", "corrector_msg_id", "corrector_role", "bot_error_quote"],
    getNone e' (py k) = getNone e (py k))
include hsame

lemma fault_congr : fault env rows e' = fault env rows e := by
  have ha : anchorId e' = anchorId e := hsame _ (by simp)
  have hc : correctorId e' = correctorId e := hsame _ (by simp)
  have hr : getNone e' (py "corrector_role") = getNone e (py "corrector_role") := hsame _ (by simp)
  have hq : normQuote e' = normQuote e := by rw [normQuote, hsame _ (by simp), normQuote]
  simp only [fault, correctorFault, isTroubleshooting, ha, hc, hq, hr]

lemma Settled.congr (h : Settled env rows e) : Settled env rows e' := by
  have ha : anchorId e' = anchorId e := hsame _ (by simp)
  have hc : correctorId e' = correctorId e := hsame _ (by simp)
  have hq : normQuote e' = normQuote e := by rw [normQuote, hsame _ (by simp), normQuote]
  refine ⟨?_, ?_, ?_⟩
  · simpa only [anchorPick, ha, hc, hq] using h.anchor
  · simpa only [correctorPick, ha, hc] using h.corrector
  · rw [fault_congr hsame, h.sound]

end Congr

lemma Settled.tagged (h : Settled env rows e) (sid : ℕ) : Settled env rows (tagged sid e) := by
  refine Settled.congr (fun k hk => getNone_tagged sid e fun he => ?_) h
  rw [← py_inj.mp he] at hk
  simp at hk

def soleGroup (sid : ℕ) : List Correction → Dict Json (List Correction)
  | [] => []
  | r :: rs => [(.int sid, r :: rs)]

lemma extendAt_soleGroup (sid : ℕ) (old : List Correction) (r : Correction) :
    extendAt (soleGroup sid old) (.int sid) [r] = soleGroup sid (old ++ [r]) := by
  cases old <;> simp [soleGroup, extendAt, PyDict.set, get?]

lemma groupCached_tagged (sid : ℕ) (es old : List Correction) :
    groupCached (es.map (tagged sid)) (soleGroup sid old) [] =
      .ok (soleGroup sid (old ++ (es.filter (!isSentinel ·)).map (tagged sid)), []) := by
  induction es generalizing old with
  | nil => simp [groupCached]
  | cons e es ih =>
    have hempty : isSentinel (tagged sid e) = isSentinel e := by
      rw [isSentinel, getNone_tagged sid e (by simp), isSentinel]
    have hsess : getNone (tagged sid e) (py "_session") = .int sid := by rw [tagged, getNone_set, if_pos rfl]
    rw [List.map_cons, groupCached, hempty, hsess]
    by_cases hs : isSentinel e = true
    · rw [if_pos hs, ih, List.filter_cons_of_neg (by simp [hs])]
    · rw [if_neg hs, if_neg (by simp), List.filter_cons_of_pos (by simpa using hs)]
      simp only [sessionKey, bind, Except.bind, extendAt_soleGroup]
      rw [ih]
      simp

lemma Settled.rows_ne_nil (h : Settled env rows e) : rows ≠ [] := by
  obtain ⟨q, a, c, hs⟩ := sound_of_fault h.sound
  exact List.ne_nil_of_mem (lookup_byId hs.anchor).2

lemma reguardGroups_soleGroup {evs : List DayEvent} {sid : ℕ} {bySess : Dict ℕ (List DayEvent)}
    (hs : get? bySess sid = some evs) (hset : ∀ e ∈ es, Settled env (rowsOf evs) e) :
    reguardGroups env bySess (soleGroup sid es) = .ok (es, []) := by
  cases es with
  | nil => rfl
  | cons r rs =>
    have hsess : sessionOf bySess (.int sid) = some evs := by simp [sessionOf, hs]
    have hne : evs ≠ [] := by
      rintro rfl
      exact (hset r List.mem_cons_self).rows_ne_nil rfl
    obtain ⟨e, evs', rfl⟩ := List.exists_cons_of_ne_nil hne
    simp [soleGroup, reguardGroups, hsess, guard_of_settled hset, bind, Except.bind]

lemma reguardCachedRows_tagged {evs : List DayEvent} {sid : ℕ} {bySess : Dict ℕ (List DayEvent)}
    (hs : get? bySess sid = some evs) (hset : ∀ e ∈ es, Settled env (rowsOf evs) e) :
    reguardCachedRows env bySess (es.map (tagged sid)) =
      .ok ((es.filter (!isSentinel ·)).map (tagged sid), []) := by
  have hgroup := groupCached_tagged sid es []
  rw [List.nil_append] at hgroup
  have hset' : ∀ e ∈ (es.filter (!isSentinel ·)).map (tagged sid), Settled env (rowsOf evs) e := by
    intro e he
    obtain ⟨e', he', rfl⟩ := List.mem_map.mp he
    exact (hset e' (List.mem_of_mem_filter he')).tagged sid
  rw [reguardCachedRows, show ([] : Dict Json (List Correction)) = soleGroup sid [] from rfl, hgroup]
  simp only [bind, Except.bind, reguardGroups_soleGroup hs hset', List.append_nil]

/-- The guard keeps every event that it has kept, as it is; so do the rows of the cache come
back on resume, if and only if none of them carries the mark of a sentinel. -/
theorem guard_idempotent_reguard_iff {env : RouteEnv} {rows : List Row} (hd : (rows.map (·.msgId)).Nodup)
    (hts : rows.Pairwise fun r s => r.ts ≤ s.ts) {events kept dropped : List Correction}
    (h : guard env rows events = .ok (kept, dropped)) :
    guard env rows kept = .ok (kept, []) ∧
      ∀ (evs : List DayEvent) (sid : ℕ) (bySess : Dict ℕ (List DayEvent)),
        rowsOf evs = rows → get? bySess sid = some evs →
        (reguardCachedRows env bySess (kept.map (tagged sid)) = .ok (kept.map (tagged sid), []) ↔
          ∀ e ∈ kept, isSentinel e = false) := by
  have hset := settled_of_kept hd hts h
  refine ⟨guard_of_settled hset, ?_⟩
  rintro evs sid bySess rfl hs
  rw [reguardCachedRows_tagged hs hset]
  constructor
  · intro heq e he
    have hlen := congrArg List.length (Prod.mk.inj (Except.ok.inj heq)).1
    rw [List.length_map, List.length_map] at hlen
    have hall := List.filter_eq_self.mp (List.filter_sublist.eq_of_length hlen)
    simpa using hall e he
  · intro hall
    rw [List.filter_eq_self.mpr fun e he => by simp [hall e he]]

/-- A claim of the bot and its denial. -/
def deniedClaim : List DayEvent :=
  [⟨⟨1, .bot, py "m1", [], py "the port is 8080"⟩, py "bot"⟩,
    ⟨⟨2, .user, py "m2", py "m1", py "no, it is 9090"⟩, py "Ann"⟩]

/-- An event of the model on it, with further fields. -/
def portEvent (more : Correction) : Correction :=
  [(py "anchor_msg_id", .str (py "m1")), (py "bot_error_quote", .str (py "port is 8080")),
    (py "corrector_msg_id", .str (py "m2")), (py "what", .str (py "wrong port"))] ++ more

lemma guard_port : guard plainRoute (rowsOf deniedClaim) [portEvent []] = .ok ([portEvent []],
    []) := by decide +kernel

lemma settled_marked : Settled plainRoute (rowsOf deniedClaim) (portEvent [(py "_empty", .bool true)]) := by
  have hport := settled_of_kept (by decide) (by decide) guard_port _ (List.mem_singleton_self _)
  refine Settled.congr (fun k hk => ?_) hport
  have hne : "_empty" ≠ k := fun he => by simp [← he] at hk
  simp [portEvent, getNone, get?_cons, hne]

/-- An event that the model marks as empty passes the guard and is gone on resume. -/
theorem marked_event_lost_on_resume :
    guard plainRoute (rowsOf deniedClaim) [portEvent [(py "_empty", .bool true)]] =
        .ok ([portEvent [(py "_empty", .bool true)]], []) ∧
      reguardCachedRows plainRoute [(1, deniedClaim)] ([portEvent [(py "_empty", .bool true)]].map (tagged 1)) =
        .ok ([], []) := by
  have hset : ∀ e ∈ [portEvent [(py "_empty", .bool true)]], Settled plainRoute (rowsOf deniedClaim) e :=
    List.forall_mem_singleton.mpr settled_marked
  have hsess : get? [(1, deniedClaim)] 1 = some deniedClaim := rfl
  refine ⟨guard_of_settled hset, ?_⟩
  rw [reguardCachedRows_tagged hsess hset]
  decide +kernel

theorem guard_idempotent_reguard_iff_port :
    guard plainRoute (rowsOf deniedClaim) [portEvent []] = .ok ([portEvent []], []) ∧
      reguardCachedRows plainRoute [(1, deniedClaim)] ([portEvent []].map (tagged 1)) =
        .ok ([portEvent []].map (tagged 1), []) := by
  have hid := guard_idempotent_reguard_iff (by decide) (by decide) guard_port
  exact ⟨hid.1, (hid.2 deniedClaim 1 [(1, deniedClaim)] rfl rfl).mpr (by decide +kernel)⟩

end AgentTrajectory.SessionCorrections
