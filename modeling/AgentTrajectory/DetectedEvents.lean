import AgentTrajectory.GuardIdempotence
import AgentTrajectory.PyRegexSub

/-! Which events of the model's replies come out of `detect_session`. A session in several
windows is freed of repeated anchors before the guard: only the first event of an anchor is
looked at, whether or not it is the one that would pass. -/
namespace AgentTrajectory.SessionCorrections
open PyText PyDict PyJson PyValue PyRegex TaskStitch RouteDay CorrectionCensus RelatedLists

def eventOf : Json → Option Correction
  | .obj d => some d
  | _ => none

def returned (env : RouteEnv) (replies : List PyStr) : List Correction :=
  (replies.flatMap (parseJsonl env)).filterMap eventOf

lemma loads_brace {s : PyStr} {v : Json} (h : loads (cp '{' :: s) = some v) : ∃ d, v = .obj d := by
  have hws : skipWs (cp '{' :: s) = cp '{' :: s := rfl
  rw [loads, hws, parseFuel] at h
  cases hp : parseValue (2 * (cp '{' :: s).length + 1 + 1) (cp '{' :: s) with
  | none =>
    rw [hp] at h
    exact absurd h (by simp)
  | some p =>
    rw [hp] at h
    have hv : p.1 = v := Option.some.inj (Option.ite_none_right_eq_some.mp h).2
    rw [parseValue, if_neg (by decide), if_pos rfl] at hp
    split_ifs at hp
    · exact ⟨[], by rw [← hv, ← Option.some.inj hp]⟩
    · obtain ⟨q, -, hq⟩ := Option.map_eq_some_iff.mp hp
      exact ⟨_, by rw [← hv, ← hq]⟩

lemma lineObject_eq_obj {env : RouteEnv} {line : PyStr} {v : Json}
    (h : lineObject env line = some v) :
    ∃ d, v = .obj d := by
  rw [lineObject] at h
  split_ifs at h with hstart
  · obtain ⟨rest, hrest⟩ := (startswith_iff _ _).mp hstart
    rw [← hrest] at h
    exact loads_brace h
  · obtain ⟨m, hm, hv⟩ := Option.bind_eq_some_iff.mp h
    obtain ⟨left, t, m₁, m₂, rfl, ⟨c, rfl, hc⟩, -⟩ := accepts_of_searchText hm
    rw [beq_iff_eq.mp hc] at hv
    exact loads_brace hv

lemma parseJsonl_eq_obj {env : RouteEnv} {raw : PyStr} {v : Json} (h : v ∈ parseJsonl env raw) :
    ∃ d, v = .obj d := by
  obtain ⟨line, -, hline⟩ := List.mem_filterMap.mp h
  exact lineObject_eq_obj hline

/-- The events of `_detect_convo`: they name a message and say what was wrong. -/
def named (ids : List PyStr) (e : Correction) : Bool :=
  (ids.map Json.str).elem (anchorId e) && (getNone e (py "what")).truthy

lemma lookup_ids (ids : List PyStr) (v : Json) : lookup (ids.map fun i => (i, ())) v =
      if hashable v then .ok (if (ids.map Json.str).elem v then some () else none) else
        .error .typeError := by
  cases v with
  | str s =>
    have hmem : (ids.map Json.str).elem (.str s) = decide (s ∈ ids) := by
      simp
    rw [lookup, hmem, get?_map_pair]
    simp [hashable]
  | _ => simp [lookup, hashable]

lemma keepNamed_eq_ok {ids : List PyStr} {vs : List Json} (hobj : ∀ v ∈ vs, ∃ d, v = .obj d)
    {es : List Correction} :
    keepNamed ids vs = .ok es ↔
      (∀ e ∈ vs.filterMap eventOf, hashable (anchorId e) = true) ∧
        es = (vs.filterMap eventOf).filter (named ids) := by
  induction vs generalizing es with
  | nil =>
    rw [keepNamed, Except.ok.injEq, List.filterMap_nil, List.filter_nil]
    exact ⟨fun h => ⟨by simp, h.symm⟩, fun h => h.2.symm⟩
  | cons v vs ih =>
    obtain ⟨d, rfl⟩ := hobj v (by simp)
    have hrest := fun es => @ih (fun v hv => hobj v (by simp [hv])) es
    have hevents : (Json.obj d :: vs).filterMap eventOf = d :: vs.filterMap eventOf := rfl
    have hstep : keepNamed ids (.obj d :: vs) =
      (lookup (ids.map fun i => (i, ())) (anchorId d) >>= fun hit =>
        keepNamed ids vs >>= fun rest =>
          .ok (if hit.isSome && (getNone d (py "what")).truthy then d :: rest else rest)) := rfl
    rw [hstep, hevents, lookup_ids, List.forall_mem_cons]
    by_cases hd : hashable (anchorId d) = true
    · rw [if_pos hd]
      have hkeep : ((if (ids.map Json.str).elem (anchorId d) then some () else none).isSome &&
          (getNone d (py "what")).truthy) = named ids d := by
        rw [named]
        cases (ids.map Json.str).elem (anchorId d) <;> rfl
      dsimp only [bind, Except.bind]
      rw [hkeep, List.filter_cons]
      constructor
      · intro h
        obtain ⟨rest, hr, heq⟩ := bind_eq_ok.mp h
        obtain ⟨hall, rfl⟩ := (hrest rest).mp hr
        exact ⟨⟨hd, hall⟩, (Except.ok.inj heq).symm⟩
      · rintro ⟨⟨-, hall⟩, rfl⟩
        exact bind_eq_ok.mpr ⟨_, (hrest _).mpr ⟨hall, rfl⟩, rfl⟩
    · simp [hd, bind, Except.bind]

lemma detectConvo_eq_ok {env : RouteEnv} {ids : List PyStr} {raw : PyStr} {es : List Correction} :
    detectConvo env ids (.ok raw) = .ok es ↔
      (∀ e ∈ returned env [raw], hashable (anchorId e) = true) ∧
        es = (returned env [raw]).filter (named ids) := by
  have hevents : returned env [raw] = (parseJsonl env raw).filterMap eventOf := by simp [returned]
  rw [hevents]
  exact keepNamed_eq_ok fun v hv => parseJsonl_eq_obj hv

lemma returned_cons (env : RouteEnv) (raw : PyStr) (replies : List PyStr) :
    returned env (raw :: replies) = returned env [raw] ++ returned env replies := by
  simp [returned]

section Guard
variable {env : RouteEnv} {rows : List Row}

def guardOne (env : RouteEnv) (rows : List Row) (e : Correction) :
    Except PyError (Correction × Option PyStr) := do
  let e ← resolveAnchor rows e
  let e ← resolveCorrector env rows e
  let reason ← fault env rows e
  .ok (e, reason)

lemma guardOne_eq_ok {e x : Correction} {reason : Option PyStr} :
    guardOne env rows e = .ok (x, reason) ↔
      ∃ e₁, resolveAnchor rows e = .ok e₁ ∧ resolveCorrector env rows e₁ = .ok x ∧
        fault env rows x = .ok reason := by
  simp only [guardOne, bind_eq_ok, Except.ok.injEq, Prod.mk.injEq]
  constructor
  · rintro ⟨e₁, h₁, e₂, h₂, r, hr, rfl, rfl⟩
    exact ⟨e₁, h₁, h₂, hr⟩
  · rintro ⟨e₁, h₁, h₂, hr⟩
    exact ⟨e₁, h₁, x, h₂, reason, hr, rfl, rfl⟩

lemma validateEvents_isOk {es : List Correction} :
    (validateEvents env rows es).isOk = true ↔ ∀ e ∈ es, (fault env rows e).isOk = true := by
  induction es with
  | nil => exact iff_of_true rfl (by simp)
  | cons e es ih =>
    rw [List.forall_mem_cons, ← ih, validateEvents]
    cases fault env rows e with
    | error err => simp [bind, Except.bind, Except.isOk, Except.toBool]
    | ok reason =>
      cases validateEvents env rows es with
      | error err => simp [bind, Except.bind, Except.isOk, Except.toBool]
      | ok p => cases reason <;> simp [bind, Except.bind, Except.isOk, Except.toBool]

lemma guard_isOk {es : List Correction} :
    (guard env rows es).isOk = true ↔ ∀ e ∈ es, (guardOne env rows e).isOk = true := by
  constructor
  · intro h e he
    obtain ⟨r, hr⟩ := isOk_iff.mp h
    obtain ⟨es₁, h₁, hr⟩ := bind_eq_ok.mp hr
    obtain ⟨es₂, h₂, hr⟩ := bind_eq_ok.mp hr
    obtain ⟨e₁, he₁, heq₁⟩ := forall₂_mem_left (mapM_eq_ok.mp h₁) he
    obtain ⟨e₂, he₂, heq₂⟩ := forall₂_mem_left (mapM_eq_ok.mp h₂) he₁
    obtain ⟨reason, hf⟩ := isOk_iff.mp (validateEvents_isOk.mp (isOk_iff.mpr ⟨r, hr⟩) e₂ he₂)
    exact isOk_iff.mpr ⟨(e₂, reason), guardOne_eq_ok.mpr ⟨e₁, heq₁, heq₂, hf⟩⟩
  · intro h
    have hone : ∀ e ∈ es, ∃ x reason, guardOne env rows e = .ok (x, reason) := fun e he =>
      (isOk_iff.mp (h e he)).elim fun p hp => ⟨p.1, p.2, hp⟩
    obtain ⟨es₁, h₁⟩ := exists_mapM_eq_ok.mpr fun e he => by
      obtain ⟨x, reason, hx⟩ := hone e he
      obtain ⟨e₁, he₁, -⟩ := guardOne_eq_ok.mp hx
      exact isOk_iff.mpr ⟨e₁, he₁⟩
    have hpast : ∀ e₁ ∈ es₁, ∃ x reason, resolveCorrector env rows e₁ = .ok x ∧
        fault env rows x = .ok reason := by
      intro e₁ he₁
      obtain ⟨e, he, heq⟩ := forall₂_mem_right (mapM_eq_ok.mp h₁) he₁
      obtain ⟨x, reason, hx⟩ := hone e he
      obtain ⟨e₁', he₁', hrest⟩ := guardOne_eq_ok.mp hx
      rw [heq] at he₁'
      exact ⟨x, reason, Except.ok.inj he₁' ▸ hrest⟩
    obtain ⟨es₂, h₂⟩ := exists_mapM_eq_ok.mpr fun e he => by
      obtain ⟨x, reason, hx, -⟩ := hpast e he
      exact isOk_iff.mpr ⟨x, hx⟩
    have hvalid : (validateEvents env rows es₂).isOk = true := by
      refine validateEvents_isOk.mpr fun e₂ he₂ => ?_
      obtain ⟨e₁, he₁, heq⟩ := forall₂_mem_right (mapM_eq_ok.mp h₂) he₂
      obtain ⟨x, reason, hx, hf⟩ := hpast e₁ he₁
      rw [heq] at hx
      exact isOk_iff.mpr ⟨reason, Except.ok.inj hx ▸ hf⟩
    obtain ⟨r, hr⟩ := isOk_iff.mp hvalid
    exact isOk_iff.mpr ⟨r, bind_eq_ok.mpr ⟨es₁, h₁, bind_eq_ok.mpr ⟨es₂, h₂, hr⟩⟩⟩

lemma mem_guard {es kept dropped : List Correction}
    (h : guard env rows es = .ok (kept, dropped)) {x : Correction} :
    x ∈ kept ↔ ∃ e ∈ es, guardOne env rows e = .ok (x, none) := by
  obtain ⟨es₁, h₁, h⟩ := bind_eq_ok.mp h
  obtain ⟨es₂, h₂, h⟩ := bind_eq_ok.mp h
  rw [mem_validateEvents h]
  constructor
  · rintro ⟨hx, hf⟩
    obtain ⟨e₁, he₁, heq₁⟩ := forall₂_mem_right (mapM_eq_ok.mp h₂) hx
    obtain ⟨e, he, heq⟩ := forall₂_mem_right (mapM_eq_ok.mp h₁) he₁
    exact ⟨e, he, guardOne_eq_ok.mpr ⟨e₁, heq, heq₁, hf⟩⟩
  · rintro ⟨e, he, hx⟩
    obtain ⟨e₁, heq, heq₁, hf⟩ := guardOne_eq_ok.mp hx
    obtain ⟨e₁', he₁', heq'⟩ := forall₂_mem_left (mapM_eq_ok.mp h₁) he
    rw [heq] at heq'
    obtain rfl := Except.ok.inj heq'
    obtain ⟨x', hx', heq'⟩ := forall₂_mem_left (mapM_eq_ok.mp h₂) he₁'
    rw [heq₁] at heq'
    exact ⟨Except.ok.inj heq' ▸ hx', hf⟩

/-- The guard keeps the event when it gets it alone, and files it under the anchor. -/
def KeptAlone (env : RouteEnv) (rows : List Row) (e : Correction) (a : Json) : Prop :=
  ∃ x, guard env rows [e] = .ok ([x], []) ∧ anchorId x = a

lemma guard_singleton (e : Correction) : guard env rows [e] = (guardOne env rows e).map fun p =>
      match p.2 with
      | none => ([p.1], [])
      | some r => ([], [set p.1 (py "_drop") (.str r)]) := by
  rw [guard, guardOne]
  cases h₁ : resolveAnchor rows e with
  | error err => simp [h₁, bind, Except.bind, Except.map]
  | ok e₁ =>
    cases h₂ : resolveCorrector env rows e₁ with
    | error err => simp [h₁, h₂, bind, Except.bind, Except.map, pure, Except.pure]
    | ok e₂ =>
      cases h₃ : fault env rows e₂ with
      | error err =>
        simp [h₁, h₂, h₃, validateEvents, bind, Except.bind, Except.map, pure, Except.pure]
      | ok reason =>
        cases reason <;> simp [h₁, h₂, h₃, validateEvents, bind, Except.bind,
          Except.map, pure, Except.pure]

lemma keptAlone_iff {e : Correction} {a : Json} :
    KeptAlone env rows e a ↔ ∃ x, guardOne env rows e = .ok (x, none) ∧ anchorId x = a := by
  have hone : ∀ x, guard env rows [e] = .ok ([x], []) ↔ guardOne env rows e = .ok (x, none) := by
    intro x
    rw [guard_singleton, map_eq_ok]
    constructor
    · rintro ⟨⟨x', reason⟩, hx, heq⟩
      cases reason with
      | none =>
        simp only [Prod.mk.injEq, List.cons.injEq, and_true] at heq
        exact heq ▸ hx
      | some r => simp at heq
    · exact fun h => ⟨(x, none), h, rfl⟩
  simp only [KeptAlone, hone]

/-- The anchor under which an event comes out of `_resolve_anchor`. -/
def Resolves (rows : List Row) (e : Correction) (a : Json) :
    Prop := ∃ e₁, resolveAnchor rows e = .ok e₁ ∧ anchorId e₁ = a

lemma anchorPick_congr {e e' : Correction} (hq : normQuote e' = normQuote e)
    (hc : correctorId e' = correctorId e) :
    anchorPick rows e' = anchorPick rows e := by
  rw [anchorPick, anchorPick, hq, hc]

lemma resolveAnchor_idem {e e₁ : Correction} (h : resolveAnchor rows e = .ok e₁) :
    resolveAnchor rows e₁ = .ok e₁ := by
  obtain ⟨hq, hc, pick, hpick, hset⟩ := resolveAnchor_ok h
  rw [resolveAnchor, anchorPick_congr hq hc, hpick]
  cases pick with
  | none => rfl
  | some p =>
    dsimp only [bind, Except.bind]
    rw [if_pos (hset p rfl)]

lemma guardOne_resolved {e e₁ : Correction} (h : resolveAnchor rows e = .ok e₁) :
    guardOne env rows e₁ = guardOne env rows e := by
  rw [guardOne, guardOne, h, resolveAnchor_idem h]

end Guard

lemma firstPerAnchor_append (seen : List Json) (xs ys : List Correction) :
    firstPerAnchor seen (xs ++ ys) =
      ((firstPerAnchor seen xs).1 ++ (firstPerAnchor (firstPerAnchor seen xs).2 ys).1,
        (firstPerAnchor (firstPerAnchor seen xs).2 ys).2) := by
  induction xs generalizing seen with
  | nil => rfl
  | cons x xs ih =>
    rw [List.cons_append, firstPerAnchor, firstPerAnchor]
    split_ifs
    · rw [ih]
      rfl
    · exact ih seen

lemma mem_firstPerAnchor {seen : List Json} {es : List Correction} {f : Correction} :
    f ∈ (firstPerAnchor seen es).1 ↔ ∃ before after, es = before ++ f :: after ∧
    (anchorId f).truthy = true ∧
      anchorId f ∉ seen ∧ ∀ x ∈ before, anchorId x ≠ anchorId f := by
  induction es generalizing seen with
  | nil => simp [firstPerAnchor]
  | cons e es ih =>
    rw [firstPerAnchor]
    by_cases hnew : (anchorId e).truthy = true ∧ anchorId e ∉ seen
    · rw [if_pos (by simpa using hnew)]
      simp only [List.mem_cons, ih]
      constructor
      · rintro (rfl | ⟨before, after, rfl, htruthy, hseen, hbefore⟩)
        · exact ⟨[], es, rfl, hnew.1, hnew.2, by simp⟩
        · rw [not_or] at hseen
          refine ⟨e :: before, after, rfl, htruthy, hseen.2, ?_⟩
          rw [List.forall_mem_cons]
          exact ⟨Ne.symm hseen.1, hbefore⟩
      · rintro ⟨before, after, hes, htruthy, hseen, hbefore⟩
        cases before with
        | nil => exact Or.inl (List.cons.inj hes).1.symm
        | cons y before =>
          obtain ⟨rfl, rfl⟩ := List.cons.inj hes
          rw [List.forall_mem_cons] at hbefore
          exact Or.inr ⟨before, after, rfl, htruthy, by simp [hseen, Ne.symm hbefore.1], hbefore.2⟩
    · rw [if_neg (by simpa using hnew), ih]
      constructor
      · rintro ⟨before, after, rfl, htruthy, hseen, hbefore⟩
        refine ⟨e :: before, after, rfl, htruthy, hseen, ?_⟩
        rw [List.forall_mem_cons]
        exact ⟨fun heq => hnew (heq ▸ ⟨htruthy, hseen⟩), hbefore⟩
      · rintro ⟨before, after, hes, htruthy, hseen, hbefore⟩
        cases before with
        | nil => exact absurd ⟨htruthy, hseen⟩ ((List.cons.inj hes).1 ▸ hnew)
        | cons y before =>
          obtain ⟨rfl, rfl⟩ := List.cons.inj hes
          rw [List.forall_mem_cons] at hbefore
          exact ⟨before, after, rfl, htruthy, hseen, hbefore.2⟩

lemma mapM_append_eq_ok {f : Correction → Except PyError Correction} {xs ys zs : List Correction} :
    (xs ++ ys).mapM f = .ok zs ↔ ∃ us vs, xs.mapM f = .ok us ∧
    ys.mapM f = .ok vs ∧ zs = us ++ vs := by
  rw [List.mapM_append]
  simp only [bind_eq_ok]
  constructor
  · rintro ⟨us, hus, vs, hvs, h⟩
    exact ⟨us, vs, hus, hvs, (Except.ok.inj h).symm⟩
  · rintro ⟨us, vs, hus, hvs, rfl⟩
    exact ⟨us, hus, vs, hvs, rfl⟩

lemma detectWindows_eq_ok {env : RouteEnv} {rows : List Row} {ids : List PyStr}
    {ws : List (List DayEvent)}
    {replies : List PyStr} (hlen : replies.length = ws.length) {seen : List Json}
    {out found : List Correction} :
    (detectWindows env rows ids seen out ws (replies.map .ok)).1 = .ok found ↔
      (∀ e ∈ returned env replies, hashable (anchorId e) = true) ∧
        ∃ es, ((returned env replies).filter (named ids)).mapM (resolveAnchor rows) = .ok es ∧
          found = out ++ (firstPerAnchor seen es).1 := by
  induction ws generalizing replies seen out with
  | nil =>
    obtain rfl := List.length_eq_zero_iff.mp hlen
    constructor
    · intro h
      obtain rfl := Except.ok.inj h
      exact ⟨by simp [returned], [], rfl, by simp [firstPerAnchor]⟩
    · rintro ⟨-, es, hes, rfl⟩
      obtain rfl : [] = es := Except.ok.inj hes
      simp [detectWindows, firstPerAnchor]
  | cons w ws ih =>
    obtain ⟨raw, replies, rfl⟩ := List.exists_cons_of_length_eq_add_one hlen
    have hrest : replies.length = ws.length := by simpa using hlen
    rw [returned_cons, List.filter_append, List.forall_mem_append]
    simp only [mapM_append_eq_ok]
    rw [List.map_cons, detectWindows, nextAnswer]
    dsimp only
    cases h : detectConvo env ids (.ok raw) >>= fun es => es.mapM (resolveAnchor rows) with
    | error err =>
      refine iff_of_false (by simp) ?_
      rintro ⟨⟨hhash, -⟩, es, ⟨us, vs, hus, -⟩, -⟩
      rw [bind_eq_ok.mpr ⟨_, detectConvo_eq_ok.mpr ⟨hhash, rfl⟩, hus⟩] at h
      simp at h
    | ok us =>
      obtain ⟨es, hes, hus⟩ := bind_eq_ok.mp h
      obtain ⟨hhash, rfl⟩ := detectConvo_eq_ok.mp hes
      dsimp only
      rw [ih hrest]
      constructor
      · rintro ⟨hhash', vs, hvs, rfl⟩
        exact ⟨⟨hhash, hhash'⟩, us ++ vs,
          ⟨us, vs, hus, hvs, rfl⟩, by rw [firstPerAnchor_append, List.append_assoc]⟩
      · rintro ⟨⟨-, hhash'⟩, _, ⟨us', vs, hus', hvs, rfl⟩, rfl⟩
        rw [hus] at hus'
        obtain rfl := Except.ok.inj hus'
        exact ⟨hhash', vs, hvs, by rw [firstPerAnchor_append, List.append_assoc]⟩

/-- How often `detect_session` asks the model. -/
def calls (env : RouteEnv) (maxChars : ℕ) (evs : List DayEvent) : ℕ :=
  if (renderSession env evs).length < 40 then 0
  else if (renderSession env evs).length ≤ maxChars then 1
  else (windows env maxChars evs).length

/-- An event that names a message and says what was wrong, and, where the session has several
windows, the first of them with its anchor. -/
def Considered (env : RouteEnv) (maxChars : ℕ) (evs : List DayEvent) (events : List Correction)
    (f : Correction) : Prop :=
  ∃ before after, events.filter (named (evs.map (·.msgId))) = before ++ f :: after ∧
    ((renderSession env evs).length ≤ maxChars ∨
      ∃ a, Resolves (rowsOf evs) f a ∧ a.truthy = true ∧ ∀ x ∈ before, ¬Resolves (rowsOf evs) x a)

/-- The events that reach the guard raise nothing on the way there or in it. -/
def Harmless (env : RouteEnv) (maxChars : ℕ) (evs : List DayEvent) (events : List Correction) :
    Prop :=
  (∀ e ∈ events, hashable (anchorId e) = true) ∧
    (∀ e ∈ events, named (evs.map (·.msgId)) e = true →
      (resolveAnchor (rowsOf evs) e).isOk = true) ∧
      ∀ f, Considered env maxChars evs events f → (guard env (rowsOf evs) [f]).isOk = true

section Session
variable {env : RouteEnv} {maxChars : ℕ} {evs : List DayEvent}

lemma guard_single_isOk {rows : List Row} {e : Correction} :
    (guard env rows [e]).isOk = true ↔ (guardOne env rows e).isOk = true := by
  rw [guard_isOk]
  simp

lemma guarded_iff {rows : List Row} {es : List Correction} {a : Json} :
    (∃ found, (guard env rows es).map Prod.fst = .ok found ∧ ∃ x ∈ found, anchorId x = a) ↔
      (∀ e ∈ es, (guard env rows [e]).isOk = true) ∧ ∃ e ∈ es, KeptAlone env rows e a := by
  simp only [guard_single_isOk, ← guard_isOk, keptAlone_iff]
  constructor
  · rintro ⟨found, hfound, x, hx, ha⟩
    obtain ⟨⟨kept, dropped⟩, hguard, rfl⟩ := map_eq_ok.mp hfound
    obtain ⟨e, he, hone⟩ := (mem_guard hguard).mp hx
    exact ⟨isOk_iff.mpr ⟨_, hguard⟩, e, he, x, hone, ha⟩
  · rintro ⟨hok, e, he, x, hone, ha⟩
    obtain ⟨⟨kept, dropped⟩, hguard⟩ := isOk_iff.mp hok
    exact ⟨kept, by rw [hguard]; rfl, x, (mem_guard hguard).mpr ⟨e, he, hone⟩, ha⟩

lemma considered_of_first {events es : List Correction}
    (hes : (events.filter (named (evs.map (·.msgId)))).mapM (resolveAnchor (rowsOf evs)) = .ok es)
    {f' : Correction} (h : f' ∈ (firstPerAnchor [] es).1) :
    ∃ f, Considered env maxChars evs events f ∧ resolveAnchor (rowsOf evs) f = .ok f' := by
  obtain ⟨before', after', rfl, htruthy, -, hbefore⟩ := mem_firstPerAnchor.mp h
  obtain ⟨before, f, after, hsplit, hb, hf, -⟩ := forall₂_split_right (mapM_eq_ok.mp hes)
  refine ⟨f, ⟨before, after, hsplit, Or.inr ⟨anchorId f', ⟨f', hf, rfl⟩, htruthy, ?_⟩⟩, hf⟩
  rintro x hx ⟨x', hx', ha⟩
  obtain ⟨y, hy, hxy⟩ := forall₂_mem_left hb hx
  rw [hx'] at hxy
  obtain rfl := Except.ok.inj hxy
  exact hbefore _ hy ha

lemma first_of_considered (hlong : maxChars < (renderSession env evs).length)
    {events es : List Correction}
    (hes : (events.filter (named (evs.map (·.msgId)))).mapM (resolveAnchor (rowsOf evs)) = .ok es)
    {f : Correction} (h : Considered env maxChars evs events f) :
    ∃ f' ∈ (firstPerAnchor [] es).1, resolveAnchor (rowsOf evs) f = .ok f' := by
  obtain ⟨before, after, hsplit, hshort | ⟨a, ⟨f', hf, rfl⟩, htruthy, hbefore⟩⟩ := h
  · omega
  · rw [hsplit] at hes
    obtain ⟨before', g, after', rfl, hb, hg, -⟩ := forall₂_split_left (mapM_eq_ok.mp hes)
    rw [hf] at hg
    obtain rfl := Except.ok.inj hg
    refine ⟨_, mem_firstPerAnchor.mpr ⟨before', after', rfl, htruthy, by simp, ?_⟩, hf⟩
    intro x hx heq
    obtain ⟨y, hy, hyx⟩ := forall₂_mem_right hb hx
    exact hbefore y hy ⟨x, hyx, heq⟩

lemma resolveAnchor_of_guard {rows : List Row} {e : Correction}
    (h : (guard env rows [e]).isOk = true) :
    (resolveAnchor rows e).isOk = true := by
  obtain ⟨⟨x, reason⟩, hx⟩ := isOk_iff.mp (guard_single_isOk.mp h)
  obtain ⟨e₁, he₁, -⟩ := guardOne_eq_ok.mp hx
  exact isOk_iff.mpr ⟨e₁, he₁⟩

lemma detected_iff {replies : List PyStr} (hcalls : replies.length = calls env maxChars evs)
    {a : Json} :
    (∃ found, (detectSession env maxChars evs (replies.map .ok)).1 = .ok found ∧
      ∃ x ∈ found, anchorId x = a) ↔
      Harmless env maxChars evs (returned env replies) ∧
        ∃ f, Considered env maxChars evs (returned env replies) f ∧
          KeptAlone env (rowsOf evs) f a := by
  rw [calls] at hcalls
  rw [detectSession]
  split_ifs at hcalls ⊢ with hshort hone
  · obtain rfl := List.length_eq_zero_iff.mp hcalls
    refine iff_of_false (by simp) ?_
    rintro ⟨-, f, ⟨before, after, hsplit, -⟩, -⟩
    simp [returned] at hsplit
  · obtain ⟨raw, rfl⟩ := List.length_eq_one_iff.mp hcalls
    have hconsidered : ∀ f, Considered env maxChars evs (returned env [raw]) f ↔
        f ∈ (returned env [raw]).filter (named (evs.map (·.msgId))) := by
      intro f
      rw [List.mem_iff_append]
      exact ⟨fun ⟨before, after, hsplit, _⟩ => ⟨before, after, hsplit⟩,
        fun ⟨before, after, hsplit⟩ => ⟨before, after, hsplit, Or.inl hone⟩⟩
    simp only [bind_eq_ok, detectConvo_eq_ok, Harmless, hconsidered, List.map_cons,
      List.map_nil, nextAnswer]
    constructor
    · rintro ⟨found, ⟨es, ⟨hhash, rfl⟩, hguard⟩, hx⟩
      obtain ⟨hok, hkept⟩ := guarded_iff.mp ⟨found, hguard, hx⟩
      exact ⟨⟨hhash, fun e he hn => resolveAnchor_of_guard (hok e (List.mem_filter.mpr ⟨he, hn⟩)),
        hok⟩, hkept⟩
    · rintro ⟨⟨hhash, -, hok⟩, hkept⟩
      obtain ⟨found, hguard, hx⟩ := guarded_iff.mpr ⟨hok, hkept⟩
      exact ⟨found, ⟨_, ⟨hhash, rfl⟩, hguard⟩, hx⟩
  · have hsame : ∀ {f f' : Correction}, resolveAnchor (rowsOf evs) f = .ok f' →
        ((guard env (rowsOf evs) [f']).isOk = true ↔ (guard env (rowsOf evs) [f]).isOk = true) ∧
          (KeptAlone env (rowsOf evs) f' a ↔ KeptAlone env (rowsOf evs) f a) := by
      intro f f' hf
      rw [guard_single_isOk, guard_single_isOk, keptAlone_iff, keptAlone_iff, guardOne_resolved hf]
      exact ⟨Iff.rfl, Iff.rfl⟩
    simp only [bind_eq_ok, detectWindows_eq_ok hcalls, List.nil_append]
    constructor
    · rintro ⟨found, ⟨_, ⟨hhash, es, hes, rfl⟩, hguard⟩, hx⟩
      obtain ⟨hok, f', hf', hkept⟩ := guarded_iff.mp ⟨found, hguard, hx⟩
      obtain ⟨f, hf, hres⟩ := considered_of_first hes hf'
      refine ⟨⟨hhash, fun e he hn => ?_, fun g hg => ?_⟩, f, hf, (hsame hres).2.mp hkept⟩
      · obtain ⟨e', -, he'⟩ := forall₂_mem_left (mapM_eq_ok.mp hes) (List.mem_filter.mpr ⟨he, hn⟩)
        exact isOk_iff.mpr ⟨e', he'⟩
      · obtain ⟨g', hg', hres'⟩ := first_of_considered (not_le.mp hone) hes hg
        exact (hsame hres').1.mp (hok g' hg')
    · rintro ⟨⟨hhash, hres, hok⟩, f, hf, hkept⟩
      obtain ⟨es, hes⟩ := exists_mapM_eq_ok.mpr fun e he =>
        hres e (List.mem_of_mem_filter he) (List.of_mem_filter he)
      obtain ⟨f', hf', hresf⟩ := first_of_considered (not_le.mp hone) hes hf
      have hfirst : ∀ e ∈ (firstPerAnchor [] es).1, (guard env (rowsOf evs) [e]).isOk = true := by
        intro e he
        obtain ⟨g, hg, hresg⟩ := considered_of_first hes he
        exact (hsame hresg).1.mpr (hok g hg)
      obtain ⟨found, hguard, hx⟩ := guarded_iff.mpr ⟨hfirst, f', hf', (hsame hresf).2.mpr hkept⟩
      exact ⟨found, ⟨_, ⟨hhash, es, hes, rfl⟩, hguard⟩, hx⟩

end Session

/-- Every anchor for which an event of the replies would pass the guard alone is among those that
`detect_session` returns exactly when, for each such anchor, nothing raises on the way and the
event that is considered for it passes. -/
theorem detectSession_keeps_valid_iff (env : RouteEnv) (maxChars : ℕ)
    (evs : List DayEvent) (replies : List PyStr)
    (hcalls : replies.length = calls env maxChars evs) :
    (∀ e ∈ returned env replies, ∀ a, KeptAlone env (rowsOf evs) e a →
        ∃ found, (detectSession env maxChars evs (replies.map .ok)).1 = .ok found ∧
          ∃ x ∈ found, anchorId x = a) ↔
      ∀ e ∈ returned env replies, ∀ a, KeptAlone env (rowsOf evs) e a →
        Harmless env maxChars evs (returned env replies) ∧
          ∃ f, Considered env maxChars evs (returned env replies) f ∧
            KeptAlone env (rowsOf evs) f a := by
  simp only [detected_iff hcalls]

/-- The reply to a window in which the corrector was not seen, and that to the next window. -/
def twoReplies (first : Correction) :
    List PyStr := [(Json.obj first).dumps, (Json.obj (portEvent [])).dumps]

/-- A correction without its corrector takes the place of the same one with it. -/
theorem later_valid_event_lost :
    (twoReplies (set (portEvent []) (py "corrector_msg_id") (.str (py "m9")))).length =
      calls plainRoute 20 deniedClaim ∧
      returned plainRoute
        (twoReplies (set (portEvent []) (py "corrector_msg_id") (.str (py "m9")))) =
        [set (portEvent []) (py "corrector_msg_id") (.str (py "m9")), portEvent []] ∧
      guard plainRoute (rowsOf deniedClaim) [portEvent []] = .ok ([portEvent []], []) ∧
      (detectSession plainRoute 20 deniedClaim
        ((twoReplies (set (portEvent []) (py "corrector_msg_id") (.str (py "m9")))).map .ok)).1 =
          .ok [] :=
  ⟨by decide +kernel, by decide +kernel, guard_port, by decide +kernel⟩

theorem detectSession_keeps_valid_iff_port :
    KeptAlone plainRoute (rowsOf deniedClaim) (portEvent []) (anchorId (portEvent [])) ∧
      Harmless plainRoute 20 deniedClaim (returned plainRoute (twoReplies (portEvent []))) ∧
        ∃ f, Considered plainRoute 20 deniedClaim (returned plainRoute (twoReplies (portEvent [])))
          f ∧
          KeptAlone plainRoute (rowsOf deniedClaim) f (anchorId (portEvent [])) := by
  have hreturned : returned plainRoute (twoReplies (portEvent [])) =
    [portEvent [], portEvent []] := by decide +kernel
  have hkept : KeptAlone plainRoute (rowsOf deniedClaim) (portEvent [])
    (anchorId (portEvent [])) := ⟨_, guard_port, rfl⟩
  have hdetected :
    (detectSession plainRoute 20 deniedClaim ((twoReplies (portEvent [])).map .ok)).1 =
      .ok [portEvent []] := by decide +kernel
  refine ⟨hkept,
    (detectSession_keeps_valid_iff plainRoute 20 deniedClaim (twoReplies (portEvent []))
    (by decide +kernel)).mp (fun e he a ha => ?_) (portEvent []) (by simp [hreturned]) _ hkept⟩
  obtain rfl : e = portEvent [] := by simpa [hreturned] using he
  obtain ⟨x, hx, rfl⟩ := ha
  obtain rfl : portEvent [] = x := by simpa [guard_port] using hx
  exact ⟨_, hdetected, _, by simp, rfl⟩

end AgentTrajectory.SessionCorrections
