import AgentTrajectory.RecheckPool

/-! The repairs of `recheck_user_corrections_pool.py` on a pick that passes the check. The
repair of B along the reply chain and that of t0 keep it valid; the anchor of the seed record
is put in the place of B without the checks that B has passed. -/
namespace AgentTrajectory.RecheckPool
open PyText PyDict PyJson PyValue PyRegex PathWalk RouteDay CorrectionCensus
    SessionCorrections RuntimeLane

variable {τ : Type} {env : RouteEnv} {log : EventLog τ}

lemma index_of_getElem? {i : ℕ} {e : Event τ} (h : log.events[i]? = some e) : index log e = i := by
  rw [index, positions, get?_places log.distinct h, Option.getD_some]

lemma index_lt_of_mem_take {n : ℕ} {e : Event τ} (h : e ∈ log.events.take n) : index log e < n := by
  obtain ⟨i, hi⟩ := List.mem_iff_getElem?.mp h
  rw [List.getElem?_take] at hi
  split_ifs at hi with hin
  rwa [index_of_getElem? hi]

structure Reads (env : RouteEnv) (log : EventLog τ) (r : Answer) (t0 b c : Event τ)
    (quote kind : PyStr) : Prop where
  accepted : accepts r = true
  t0 : getNone r (py "t0_msg_id") = .str t0.msgId ∧ t0 ∈ log.events
  b : getNone r (py "bot_error_msg_id") = .str b.msgId ∧ b ∈ log.events
  c : getNone r (py "corrector_msg_id") = .str c.msgId ∧ c ∈ log.events
  quote : quoteOf env r = .ok quote
  kind : kindOf r = .ok kind

/-- What `_validate_pick` asks of B and C. -/
structure SoundError (env : RouteEnv) (log : EventLog τ) (b c : Event τ) (quote kind : PyStr) :
    Prop where
  b_bot : roleOf env b = .bot
  c_user : roleOf env c = .user
  b_before : index log b < index log c
  long : 4 ≤ (dropSpaces quote).length
  quoted : quotedIn env quote b.text = true
  line : onLine env log b c kind = true

/-- What `_validate_pick` asks of all three. -/
structure Sound (env : RouteEnv) (log : EventLog τ) (t0 b c : Event τ) (quote kind : PyStr) : Prop
    extends SoundError env log b c quote kind where
  t0_user : roleOf env t0 = .user
  t0_before : index log t0 < index log b

lemma lookup_idAt {r : Answer} {k : String} {e : Event τ} :
    lookup log.byId (idAt r k) = .ok (some e) ↔
    getNone r (py k) = .str e.msgId ∧ e ∈ log.events := by
  unfold idAt orEmpty
  constructor
  · intro h
    split_ifs at h with htruthy
    · cases hv : getNone r (py k) with
      | str s =>
        rw [hv] at h
        obtain ⟨he, rfl⟩ := (log.get?_byId).mp (Except.ok.inj h)
        exact ⟨rfl, he⟩
      | _ => simp [hv, lookup] at h
    · obtain ⟨he, hid⟩ := (log.get?_byId).mp (Except.ok.inj h)
      exact absurd hid (log.named e he)
  · rintro ⟨hv, he⟩
    have htruthy : (Json.str e.msgId).truthy = true := by
      simpa [Json.truthy, List.isEmpty_iff] using log.named e he
    rw [hv, if_pos htruthy, lookup, log.get?_byId_self he]

lemma checkPick_iff {r : Answer} {t0 b c : Event τ} : checkPick env log r t0 b c = .ok (true, []) ↔
      ∃ quote kind, quoteOf env r = .ok quote ∧ kindOf r = .ok kind ∧
        Sound env log t0 b c quote kind := by
  unfold checkPick
  constructor
  · intro h
    split_ifs at h with ht0 hb hc horder
    · simp at h
    · simp at h
    · simp at h
    · obtain ⟨quote, hquote, h⟩ := bind_eq_ok.mp h
      split_ifs at h with hlong hquoted
      · simp at h
      · simp at h
      obtain ⟨kind, hkind, h⟩ := bind_eq_ok.mp h
      split_ifs at h with hline
      · exact ⟨quote, kind, hquote, hkind, ⟨not_not.mp hb, not_not.mp hc, horder.2, not_lt.mp hlong,
          by simpa using hquoted, hline⟩, not_not.mp ht0, horder.1⟩
      · simp at h
    · simp at h
  · rintro ⟨quote, kind, hquote, hkind, hs⟩
    rw [if_neg (not_not.mpr hs.t0_user), if_neg (not_not.mpr hs.b_bot),
      if_neg (not_not.mpr hs.c_user), if_neg (not_not.mpr ⟨hs.t0_before, hs.b_before⟩)]
    refine bind_eq_ok.mpr ⟨quote, hquote, ?_⟩
    rw [if_neg (not_lt.mpr hs.long), if_neg (by simp [hs.quoted])]
    refine bind_eq_ok.mpr ⟨kind, hkind, ?_⟩
    rw [if_pos hs.line]

theorem validatePick_iff {r : Answer} : validatePick env log r = .ok (true, []) ↔
      ∃ t0 b c quote kind, Reads env log r t0 b c quote kind ∧ Sound env log t0 b c quote kind := by
  unfold validatePick
  constructor
  · intro h
    split_ifs at h with haccepts
    · simp at h
    obtain ⟨found, ht0, h⟩ := bind_eq_ok.mp h
    obtain ⟨foundB, hb, h⟩ := bind_eq_ok.mp h
    obtain ⟨foundC, hc, h⟩ := bind_eq_ok.mp h
    obtain _ | t0 := found
    · simp at h
    obtain _ | b := foundB
    · simp at h
    obtain _ | c := foundC
    · simp at h
    · obtain ⟨quote, kind, hquote, hkind, hs⟩ := checkPick_iff.mp h
      exact ⟨t0, b, c, quote, kind, ⟨by simpa using haccepts, lookup_idAt.mp ht0, lookup_idAt.mp hb,
        lookup_idAt.mp hc, hquote, hkind⟩, hs⟩
  · rintro ⟨t0, b, c, quote, kind, hr, hs⟩
    rw [if_neg (by simp [hr.accepted])]
    refine bind_eq_ok.mpr ⟨_, lookup_idAt.mpr hr.t0, bind_eq_ok.mpr ⟨_, lookup_idAt.mpr hr.b,
      bind_eq_ok.mpr ⟨_, lookup_idAt.mpr hr.c, ?_⟩⟩⟩
    exact checkPick_iff.mpr ⟨quote, kind, hr.quote, hr.kind, hs⟩

lemma getNone_update_pair (r : Answer) (i j k : PyStr) (v w : Json) :
    getNone (update r [(i, v), (j, w)]) k = if j = k then w else if i = k then
      v else getNone r k := by
  rw [update, List.foldl_cons, List.foldl_cons, List.foldl_nil, getNone_set, getNone_set]

lemma getNone_update_ne {r : Answer} {i j k : PyStr} {v w : Json} (hi : i ≠ k) (hj : j ≠ k) :
    getNone (update r [(i, v), (j, w)]) k = getNone r k := by
  rw [getNone_update_pair, if_neg hj, if_neg hi]

lemma accepts_congr {r r' : Answer} (h : getNone r' (py "verdict") = getNone r (py "verdict")) :
    accepts r' = accepts r := by
  rw [accepts, accepts, h]

lemma quoteOf_congr {r r' : Answer}
    (h : getNone r' (py "bot_error_quote") = getNone r (py "bot_error_quote")) :
    quoteOf env r' = quoteOf env r := by
  rw [quoteOf, quoteOf, h]

lemma kindOf_congr {r r' : Answer} (h : getNone r' (py "kind") = getNone r (py "kind")) :
    kindOf r' = kindOf r := by
  rw [kindOf, kindOf, h]

section Reads
variable {r : Answer} {t0 b c : Event τ} {quote kind : PyStr}

lemma Reads.replaceB (h : Reads env log r t0 b c quote kind) {p : Event τ}
    (hp : p ∈ log.events) (v : Json) :
    Reads env log (update r [(py "bot_error_msg_id", .str p.msgId),
      (py "bot_error_repaired_from", v)])
      t0 p c quote kind where
  accepted := (accepts_congr (getNone_update_ne (by simp) (by simp))).trans h.accepted
  t0 := ⟨(getNone_update_ne (by simp) (by simp)).trans h.t0.1, h.t0.2⟩
  b := by
    refine ⟨?_, hp⟩
    rw [getNone_update_pair, if_neg (by simp), if_pos rfl]
  c := ⟨(getNone_update_ne (by simp) (by simp)).trans h.c.1, h.c.2⟩
  quote := (quoteOf_congr (getNone_update_ne (by simp) (by simp))).trans h.quote
  kind := (kindOf_congr (getNone_update_ne (by simp) (by simp))).trans h.kind

lemma Reads.replaceT0 (h : Reads env log r t0 b c quote kind) {e : Event τ}
    (he : e ∈ log.events) (v : Json) :
    Reads env log (update r [(py "t0_msg_id", .str e.msgId),
      (py "t0_repaired_from", v)]) e b c quote kind where
  accepted := (accepts_congr (getNone_update_ne (by simp) (by simp))).trans h.accepted
  t0 := by
    refine ⟨?_, he⟩
    rw [getNone_update_pair, if_neg (by simp), if_pos rfl]
  b := ⟨(getNone_update_ne (by simp) (by simp)).trans h.b.1, h.b.2⟩
  c := ⟨(getNone_update_ne (by simp) (by simp)).trans h.c.1, h.c.2⟩
  quote := (quoteOf_congr (getNone_update_ne (by simp) (by simp))).trans h.quote
  kind := (kindOf_congr (getNone_update_ne (by simp) (by simp))).trans h.kind

lemma Reads.withAnchor (h : Reads env log r t0 b c quote kind) {a : Event τ}
    (ha : a ∈ log.events) {q : PyStr} (hq : q ≠ []) :
    Reads env log (withAnchor r a q) t0 a c (strip (TaskStitch.stripFeishu env.env q)) kind := by
  have hfield (k : PyStr)
      (hk : k ∉ [py "bot_error_repaired_from", py "bot_error_msg_id", py "bot_error_quote"]) :
        getNone (RecheckPool.withAnchor r a q) k = getNone r k := by
    simp only [List.mem_cons, List.not_mem_nil, or_false, not_or] at hk
    unfold RecheckPool.withAnchor
    rw [getNone_update_ne (Ne.symm hk.2.1) (Ne.symm hk.2.2)]
    split_ifs
    · rfl
    · exact getNone_set_ne _ (Ne.symm hk.1) _
  refine ⟨?_, ?_, ⟨?_, ha⟩, ?_, ?_, ?_⟩
  · exact (accepts_congr (hfield _ (by decide))).trans h.accepted
  · exact ⟨(hfield _ (by decide)).trans h.t0.1, h.t0.2⟩
  · rw [RecheckPool.withAnchor, getNone_update_pair, if_neg (by simp), if_pos rfl]
  · exact ⟨(hfield _ (by decide)).trans h.c.1, h.c.2⟩
  · have hquote : getNone (RecheckPool.withAnchor r a q) (py "bot_error_quote") = .str q := by
      rw [RecheckPool.withAnchor, getNone_update_pair, if_pos rfl]
    have htruthy : (Json.str q).truthy = true := by simpa [Json.truthy, List.isEmpty_iff] using hq
    rw [quoteOf, hquote, orEmpty, if_pos htruthy]
  · exact (kindOf_congr (hfield _ (by decide))).trans h.kind

theorem repairParentBotErrorPick_keeps (h : Reads env log r t0 b c quote kind)
    (hs : Sound env log t0 b c quote kind) :
    ∃ r' b', repairParentBotErrorPick env log r = .ok r' ∧ Reads env log r' t0 b' c quote kind ∧
      Sound env log t0 b' c quote kind := by
  have hrepair : repairParentBotErrorPick env log r = repairParent env log r t0 b c := by
    unfold repairParentBotErrorPick
    rw [if_neg (by simp [h.accepted]), lookup_idAt.mpr h.c,
      lookup_idAt.mpr h.b, lookup_idAt.mpr h.t0]
    dsimp only [bind, Except.bind]
  by_cases hskip : quote = [] ∨ b.msgId ∈ parentChainIds log.byId c.msgId
  · refine ⟨r, b, ?_, h, hs⟩
    simp only [hrepair, repairParent, h.quote, bind, Except.bind, if_pos hskip]
  cases hp : parentWithQuote env log t0 c quote (parentChainIds log.byId c.msgId) with
  | none =>
    refine ⟨r, b, ?_, h, hs⟩
    simp only [hrepair, repairParent, h.quote, bind, Except.bind, if_neg hskip, hp]
  | some p =>
    obtain ⟨m, hm, hget⟩ := List.mem_filterMap.mp (List.mem_of_find?_eq_some hp)
    obtain ⟨hmem, rfl⟩ := (log.get?_byId).mp hget
    have hprop := List.find?_some hp
    simp only [Bool.and_eq_true, beq_iff_eq, decide_eq_true_eq] at hprop
    obtain ⟨⟨hbot, hafter, hbefore⟩, hquoted⟩ := hprop
    have hline : onLine env log p c kind = true := by simp [onLine, hm]
    refine ⟨_, p, ?_, h.replaceB hmem (.str b.msgId), ⟨hbot, hs.c_user, hbefore, hs.long, hquoted,
      hline⟩, hs.t0_user, hafter⟩
    simp only [hrepair, repairParent, h.quote, bind, Except.bind, if_neg hskip, hp]

structure Replaces (env : RouteEnv) (log : EventLog τ) (a c : Event τ) (q : PyStr) : Prop where
  bot : roleOf env a = .bot
  before : index log a < index log c
  nonempty : q ≠ []
  quoted : quotedIn env q a.text = true

lemma repairKnownBotErrorPick_none (h : Reads env log r t0 b c quote kind)
    {raw : Answer} {q : PyStr}
    (hq : quoteOf env raw = .ok q) (ha : lookup log.byId (idAt raw "anchor_msg_id") = .ok none) :
    repairKnownBotErrorPick env log raw r = .ok r := by
  unfold repairKnownBotErrorPick
  rw [if_neg (by simp [h.accepted]), hq, ha]
  dsimp only [bind, Except.bind]

lemma repairKnownBotErrorPick_some (h : Reads env log r t0 b c quote kind)
    {raw : Answer} {q : PyStr} (hq : quoteOf env raw = .ok q) {a : Event τ}
    (ha : lookup log.byId (idAt raw "anchor_msg_id") = .ok (some a)) :
    repairKnownBotErrorPick env log raw r =
      if roleOf env a = .bot ∧ index log a < index log c ∧ q ≠ [] ∧
        quotedIn env q a.text = true then
        .ok (withAnchor r a q)
      else .ok r := by
  unfold repairKnownBotErrorPick
  rw [if_neg (by simp [h.accepted]), hq, ha]
  dsimp only [bind, Except.bind]
  rw [lookup_idAt.mpr h.c]

/-- What the position of t0 has to be once B stands at `pos`. -/
def T0Usable (env : RouteEnv) (log : EventLog τ) (t0 : Event τ) (pos : ℕ) : Prop :=
  index log t0 < pos ∨ (suspicious env t0 = true ∧
    ∃ e ∈ log.events.take pos, looksLikeOriginalInstruction env e = true)

theorem repairT0Pick_spec (h : Reads env log r t0 b c quote kind) (huser : roleOf env t0 = .user) :
    ∃ r' t0', repairT0Pick env log r = .ok r' ∧ Reads env log r' t0' b c quote kind ∧
      roleOf env t0' = .user ∧
        (index log t0' < index log b ↔ T0Usable env log t0 (index log b)) := by
  unfold repairT0Pick
  rw [if_neg (by simp [h.accepted]), lookup_idAt.mpr h.t0, lookup_idAt.mpr h.b]
  dsimp only [bind, Except.bind]
  by_cases hsus : suspicious env t0 = true
  · rw [if_pos hsus]
    cases he : earlierInstruction env log (index log b) with
    | none =>
      refine ⟨r, t0, rfl, h, huser, Iff.intro .inl fun husable => ?_⟩
      rcases husable with hlt | ⟨-, e, hmem, hlooks⟩
      · exact hlt
      · have hnone := List.find?_eq_none.mp he e (List.mem_reverse.mpr hmem)
        exact absurd hlooks hnone
    | some e =>
      have hmem : e ∈ log.events.take (index log b) :=
        List.mem_reverse.mp (List.mem_of_find?_eq_some he)
      have hlooks : looksLikeOriginalInstruction env e = true := List.find?_some he
      have hhuman : roleOf env e = .user := by
        simp only [looksLikeOriginalInstruction, isHumanEvent,
          Bool.and_eq_true, beq_iff_eq] at hlooks
        exact hlooks.1.1.1
      exact ⟨_, e, rfl, h.replaceT0 (List.mem_of_mem_take hmem) _, hhuman,
        iff_of_true (index_lt_of_mem_take hmem) (.inr ⟨hsus, e, hmem, hlooks⟩)⟩
  · rw [if_neg hsus]
    refine ⟨r, t0, rfl, h, huser, Iff.intro .inl fun husable => ?_⟩
    rcases husable with hlt | ⟨hsus', -⟩
    · exact hlt
    · exact absurd hsus' hsus

end Reads

structure AnchorFits (env : RouteEnv) (log : EventLog τ) (t0 a c : Event τ) (q kind : PyStr) :
    Prop where
  t0 : T0Usable env log t0 (index log a)
  long : 4 ≤ (dropSpaces (strip (TaskStitch.stripFeishu env.env q))).length
  quoted : quotedIn env (strip (TaskStitch.stripFeishu env.env q)) a.text = true
  line : onLine env log a c kind = true

/-- The seed record can be read, and its anchor fits the pick wherever it replaces B. -/
structure SeedKeeps (env : RouteEnv) (log : EventLog τ) (raw pick : Answer) : Prop where
  anchorId : (lookup log.byId (idAt raw "anchor_msg_id")).isOk = true
  quoteText : (quoteOf env raw).isOk = true
  fits : ∀ t0 ∈ log.events, ∀ a ∈ log.events, ∀ c ∈ log.events, ∀ q kind,
    getNone pick (py "t0_msg_id") = .str t0.msgId →
      getNone raw (py "anchor_msg_id") = .str a.msgId →
    getNone pick (py "corrector_msg_id") = .str c.msgId → quoteOf env raw = .ok q →
      kindOf pick = .ok kind →
    Replaces env log a c q → AnchorFits env log t0 a c q kind

section Pipeline
variable {r raw : Answer} {t0 b c : Event τ} {quote kind : PyStr}

lemma validatePick_of_reads (h : Reads env log r t0 b c quote kind) :
    validatePick env log r = .ok (true, []) ↔ Sound env log t0 b c quote kind := by
  have hcheck : validatePick env log r = checkPick env log r t0 b c := by
    unfold validatePick
    rw [if_neg (by simp [h.accepted]), lookup_idAt.mpr h.t0,
      lookup_idAt.mpr h.b, lookup_idAt.mpr h.c]
    dsimp only [bind, Except.bind]
  rw [hcheck, checkPick_iff]
  constructor
  · rintro ⟨quote', kind', hquote, hkind, hs⟩
    obtain rfl := Except.ok.inj (hquote.symm.trans h.quote)
    obtain rfl := Except.ok.inj (hkind.symm.trans h.kind)
    exact hs
  · exact fun hs => ⟨quote, kind, h.quote, h.kind, hs⟩

lemma repairT0Pick_passes (h : Reads env log r t0 b c quote kind) (huser : roleOf env t0 = .user) :
    (repairT0Pick env log r >>= validatePick env log) = .ok (true, []) ↔
      T0Usable env log t0 (index log b) ∧ SoundError env log b c quote kind := by
  obtain ⟨r', t0', hr', hreads, huser', hindex⟩ := repairT0Pick_spec h huser
  rw [hr']
  change validatePick env log r' = .ok (true, []) ↔ _
  rw [validatePick_of_reads hreads, ← hindex]
  constructor
  · intro hs
    exact ⟨hs.t0_before, hs.toSoundError⟩
  · rintro ⟨hlt, hs⟩
    exact ⟨hs, huser', hlt⟩

lemma repairs_after_parent (h : Reads env log r t0 b c quote kind)
    (hs : Sound env log t0 b c quote kind) :
    ((repairKnownBotErrorPick env log raw r >>= repairT0Pick env log) >>= validatePick env log) =
      .ok (true, []) ↔
      ((lookup log.byId (idAt raw "anchor_msg_id")).isOk = true ∧ (quoteOf env raw).isOk = true ∧
        ∀ a ∈ log.events, ∀ q, getNone raw (py "anchor_msg_id") = .str a.msgId →
          quoteOf env raw = .ok q →
          Replaces env log a c q → AnchorFits env log t0 a c q kind) := by
  have hkeep : (repairT0Pick env log r >>= validatePick env log) = .ok (true, []) :=
    (repairT0Pick_passes h hs.t0_user).mpr ⟨.inl hs.t0_before, hs.toSoundError⟩
  cases hq : quoteOf env raw with
  | error e =>
    have hfail : repairKnownBotErrorPick env log raw r = .error e := by
      unfold repairKnownBotErrorPick
      rw [if_neg (by simp [h.accepted]), hq]
      rfl
    rw [hfail]
    simp [bind, Except.bind, Except.isOk, Except.toBool]
  | ok q =>
    cases ha : lookup log.byId (idAt raw "anchor_msg_id") with
    | error e =>
      have hfail : repairKnownBotErrorPick env log raw r = .error e := by
        unfold repairKnownBotErrorPick
        rw [if_neg (by simp [h.accepted]), hq, ha]
        rfl
      rw [hfail]
      simp [bind, Except.bind, Except.isOk, Except.toBool]
    | ok found =>
      cases found with
      | none =>
        rw [repairKnownBotErrorPick_none h hq ha]
        refine iff_of_true hkeep ⟨rfl, rfl, fun a hmem q hid _ => ?_⟩
        rw [lookup_idAt.mpr ⟨hid, hmem⟩] at ha
        cases ha
      | some a =>
        obtain ⟨haid, hamem⟩ := lookup_idAt.mp ha
        have hunique : ∀ a' ∈ log.events, getNone raw (py "anchor_msg_id") =
            .str a'.msgId → a' = a := by
          intro a' ha' hid
          rw [haid] at hid
          exact (log.eq_of_msgId hamem ha' (Json.str.inj hid)).symm
        rw [repairKnownBotErrorPick_some h hq ha]
        split_ifs with hrep
        · change (repairT0Pick env log (withAnchor r a q) >>= validatePick env log) =
            .ok (true, []) ↔ _
          rw [repairT0Pick_passes (h.withAnchor hamem hrep.2.2.1) hs.t0_user]
          constructor
          · rintro ⟨husable, hsound⟩
            refine ⟨rfl, rfl, fun a' ha' q' hid hq' _ => ?_⟩
            obtain rfl := hunique a' ha' hid
            obtain rfl := Except.ok.inj hq'
            exact ⟨husable, hsound.long, hsound.quoted, hsound.line⟩
          · rintro ⟨-, -, hfits⟩
            have hfit := hfits a hamem q haid rfl ⟨hrep.1, hrep.2.1, hrep.2.2.1, hrep.2.2.2⟩
            exact ⟨hfit.t0, hrep.1, hs.c_user, hrep.2.1, hfit.long, hfit.quoted, hfit.line⟩
        · refine iff_of_true hkeep ⟨rfl, rfl, fun a' ha' q' hid hq' hrep' => ?_⟩
          obtain rfl := hunique a' ha' hid
          obtain rfl := Except.ok.inj hq'
          exact absurd ⟨hrep'.bot, hrep'.before, hrep'.nonempty, hrep'.quoted⟩ hrep

lemma validatePick_reason {reason : PyStr} (h : validatePick env log r = .ok (true, reason)) :
    reason = [] := by
  unfold validatePick at h
  split_ifs at h
  · simp at h
  obtain ⟨found, -, h⟩ := bind_eq_ok.mp h
  obtain ⟨foundB, -, h⟩ := bind_eq_ok.mp h
  obtain ⟨foundC, -, h⟩ := bind_eq_ok.mp h
  obtain _ | t0 := found
  · simp at h
  obtain _ | b := foundB
  · simp at h
  obtain _ | c := foundC
  · simp at h
  dsimp only at h
  unfold checkPick at h
  split_ifs at h
  · simp at h
  · simp at h
  · simp at h
  · obtain ⟨quote, -, h⟩ := bind_eq_ok.mp h
    split_ifs at h
    · simp at h
    · simp at h
    obtain ⟨kind, -, h⟩ := bind_eq_ok.mp h
    split_ifs at h
    · exact (Prod.mk.inj (Except.ok.inj h)).2.symm
    · simp at h
  · simp at h

lemma update_append (d ps qs : Answer) :
    update d (ps ++ qs) = update (update d ps) qs := List.foldl_append

theorem recheckOne_valid_iff {rawByC : Dict PyStr Answer} {row answer : Answer} {seed : Seed τ}
    (hseed : seedOf env log rawByC row = .ok (some seed)) :
    (∃ out, recheckOne env log rawByC row (.ok answer) = .ok out ∧
      getNone out (py "valid") = .bool true) ↔
      (repairPick env log seed.raw (lockCorrectorPick answer seed.focus.corrector) >>=
        validatePick env log) =
        .ok (true, []) := by
  unfold recheckOne
  constructor
  · rintro ⟨out, hout, hvalid⟩
    obtain ⟨found, hfound, hout⟩ := bind_eq_ok.mp hout
    obtain rfl := Except.ok.inj (hseed.symm.trans hfound)
    obtain ⟨parsed, hparsed, hout⟩ := bind_eq_ok.mp hout
    obtain ⟨⟨ok, reason⟩, hcheck, hout⟩ := bind_eq_ok.mp hout
    obtain rfl := Except.ok.inj hout
    rw [update_append, getNone_update_pair, if_neg (by simp), if_pos rfl] at hvalid
    obtain rfl := Json.bool.inj hvalid
    obtain rfl := validatePick_reason hcheck
    exact bind_eq_ok.mpr ⟨parsed, hparsed, hcheck⟩
  · intro h
    obtain ⟨parsed, hparsed, hcheck⟩ := bind_eq_ok.mp h
    refine ⟨_, bind_eq_ok.mpr ⟨_, hseed,
      bind_eq_ok.mpr ⟨parsed, hparsed, bind_eq_ok.mpr ⟨_, hcheck, rfl⟩⟩⟩, ?_⟩
    rw [update_append, getNone_update_pair, if_neg (by simp), if_pos rfl]

/-- A pick that passes before the repairs passes after them exactly where the anchor of the
seed record, if it takes the place of B, meets what was asked of B. -/
theorem repairs_keep_pick_iff (env : RouteEnv) (log : EventLog τ)
    (rawByC : Dict PyStr Answer) (row answer : Answer)
    {seed : Seed τ} (hseed : seedOf env log rawByC row = .ok (some seed))
    (hpass : validatePick env log (lockCorrectorPick answer seed.focus.corrector) =
      .ok (true, [])) :
    (∃ out, recheckOne env log rawByC row (.ok answer) = .ok out ∧
      getNone out (py "valid") = .bool true) ↔
      SeedKeeps env log seed.raw (lockCorrectorPick answer seed.focus.corrector) := by
  rw [recheckOne_valid_iff hseed]
  generalize lockCorrectorPick answer seed.focus.corrector = pick at hpass ⊢
  obtain ⟨t0, b, c, quote, kind, hreads, hsound⟩ := validatePick_iff.mp hpass
  obtain ⟨r', b', hr', hreads', hsound'⟩ := repairParentBotErrorPick_keeps hreads hsound
  have hbind : repairPick env log seed.raw pick = repairKnownBotErrorPick env log seed.raw r' >>=
      repairT0Pick env log := by
    rw [repairPick, hr']
    rfl
  rw [hbind, repairs_after_parent hreads' hsound']
  constructor
  · rintro ⟨hanchor, hquote, hfits⟩
    refine ⟨hanchor, hquote, fun s hs a ha d hd q k hst hat hct hq hk hrep => ?_⟩
    obtain rfl := log.eq_of_msgId hreads.t0.2 hs (Json.str.inj (hreads.t0.1.symm.trans hst))
    obtain rfl := log.eq_of_msgId hreads.c.2 hd (Json.str.inj (hreads.c.1.symm.trans hct))
    obtain rfl := Except.ok.inj (hreads.kind.symm.trans hk)
    exact hfits a ha q hat hq hrep
  · rintro ⟨hanchor, hquote, hfits⟩
    refine ⟨hanchor, hquote, fun a ha q hat hq hrep => ?_⟩
    exact hfits t0 hreads.t0.2 a ha c hreads.c.2 q kind hreads.t0.1 hat
      hreads.c.1 hq hreads.kind hrep

end Pipeline

def plainEnv : RouteEnv := ⟨TaskStitch.asciiEnv, fun _ => .ok 0, fun _ => []⟩

/-- An earlier bot message, an instruction, the wrong answer to it and the correction. -/
def demoLog : EventLog ℕ where
  events := [⟨py "m1", [], py "bot", py "b", py "the cache is warm", 1⟩,
    ⟨py "m2", [], py "user", py "u", py "deploy the service", 2⟩,
    ⟨py "m3", py "m2", py "bot", py "b", py "deployed to staging", 3⟩,
    ⟨py "m4", py "m3", py "user", py "u", py "production was asked for", 4⟩]
  named := by decide +kernel
  distinct := by decide +kernel

def demoRow : Answer := [(py "corrector_msg_id", .str (py "m4"))]

/-- The record of the seed with its anchor and its quote. -/
def seedRecord (anchor quote : String) : Dict PyStr Answer :=
  [(py "m4", [(py "anchor_msg_id", .str (py anchor)), (py "bot_error_quote", .str (py quote))])]

def demoAnswer : Answer :=
  [(py "verdict", .str (py "ACCEPT")), (py "t0_msg_id", .str (py "m2")),
    (py "bot_error_msg_id", .str (py "m3")),
    (py "corrector_msg_id", .str (py "m4")),
      (py "bot_error_quote", .str (py "deployed to staging")),
    (py "kind", .str (py "negate"))]

/-- The seed of the row, whose message is in focus itself. -/
def demoSeed (anchor quote : String) : Seed ℕ :=
  ⟨⟨py "m4", py "m3", py "user", py "u", py "production was asked for", 4⟩,
    [(py "anchor_msg_id", .str (py anchor)), (py "bot_error_quote", .str (py quote))],
      ⟨py "m4", []⟩⟩

theorem repairs_keep_pick_iff_sameAnchor :
    seedOf plainEnv demoLog (seedRecord "m3" "to staging") demoRow =
      .ok (some (demoSeed "m3" "to staging")) ∧
      SeedKeeps plainEnv demoLog (demoSeed "m3" "to staging").raw
        (lockCorrectorPick demoAnswer (demoSeed "m3" "to staging").focus.corrector) := by
  have hseed : seedOf plainEnv demoLog (seedRecord "m3" "to staging") demoRow =
      .ok (some (demoSeed "m3" "to staging")) := by decide +kernel
  have hvalid := ok_of_toOption
    (show ∃ out ∈ (recheckOne plainEnv demoLog (seedRecord "m3" "to staging") demoRow
      (.ok demoAnswer)).toOption, getNone out (py "valid") = .bool true by decide +kernel)
  exact ⟨hseed,
    (repairs_keep_pick_iff plainEnv demoLog _ _ demoAnswer hseed (by decide +kernel)).mp hvalid⟩

/-- The pick passes; then the anchor, which is older than the instruction, takes the place of B. -/
theorem anchor_before_instruction_breaks_pick :
    seedOf plainEnv demoLog (seedRecord "m1" "cache is warm") demoRow =
      .ok (some (demoSeed "m1" "cache is warm")) ∧
      validatePick plainEnv demoLog
        (lockCorrectorPick demoAnswer (demoSeed "m1" "cache is warm").focus.corrector) =
        .ok (true, []) ∧
      ∃ out, recheckOne plainEnv demoLog (seedRecord "m1" "cache is warm") demoRow
        (.ok demoAnswer) = .ok out ∧
        getNone out (py "valid") = .bool false ∧ getNone out (py "invalid_reason") =
          .str (py "bad_order") := by
  have hbroken := ok_of_toOption
    (show ∃ out ∈ (recheckOne plainEnv demoLog (seedRecord "m1" "cache is warm") demoRow
      (.ok demoAnswer)).toOption, getNone out (py "valid") = .bool false ∧
        getNone out (py "invalid_reason") = .str (py "bad_order")
      by decide +kernel)
  exact ⟨by decide +kernel, by decide +kernel, hbroken⟩

end AgentTrajectory.RecheckPool
