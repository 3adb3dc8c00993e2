import AgentTrajectory.PyJsonUnicode
import AgentTrajectory.PyValue
import AgentTrajectory.ThreadHistory

/-! What a thread id identifies. The text hashed into an id is decoded from its end: a
fingerprint has a fixed length, and it determines the role in front of it. Two anchored
calls share an id exactly when they agree up to their first assistant message and nothing that
is hashed of them holds a lone surrogate. -/
namespace AgentTrajectory.MessageTree
open PyText PyDict PyJson

variable {vs : List Json} {c d : ApiCall}

def isAssistant : Json → Bool
  | .obj m => decide (getNone m (py "role") = .str (py "assistant"))
  | _ => false

def upToAssistant : List Json → List Json
  | [] => []
  | v :: vs => if isAssistant v then [v] else v :: upToAssistant vs

def ApiCall.hasAssistant (c : ApiCall) : Bool := c.messages.any isAssistant

/-- The messages are objects with string roles. -/
def ApiCall.Proper (c : ApiCall) : Prop :=
  ∀ v ∈ c.messages, ∃ m r, v = .obj m ∧ getNone m (py "role") = .str r

/-- No lone surrogate stands in the system prompt, a role or a content. -/
def ApiCall.Encodable (c : ApiCall) : Prop :=
  (stripBillingBlocks c.system).unicode = true ∧ ∀ m, .obj m ∈ c.messages →
    (getNone m (py "role")).unicode = true ∧ (getNone m (py "content")).unicode = true

def SameMessage (a b : Json) : Prop :=
  ∃ m m', a = .obj m ∧ b = .obj m' ∧
    (getNone m (py "role")).Same (getNone m' (py "role")) ∧
    (getNone m (py "content")).Same (getNone m' (py "content"))

/-- The calls agree up to their first assistant messages. -/
def SameThread (c d : ApiCall) : Prop :=
  (stripBillingBlocks c.system).Same (stripBillingBlocks d.system) ∧
    List.Forall₂ SameMessage (upToAssistant c.messages) (upToAssistant d.messages)

/-- The text hashed into the id of a call. -/
def ApiCall.pathTexts (c : ApiCall) : List PyStr :=
  match callSeq c.system c.messages with
  | .ok seq => [join unitSep (((toAnchor seq).getD seq).map stepKey)]
  | .error _ => []

/-- The twelve digits of `_branch_id`. -/
def shaTruncated (s : PyStr) : Except PyError PyStr := (sha s).map (·.take 12)

lemma sha_length {s d : PyStr} (h : sha s = .ok d) : d.length = 64 := by
  unfold sha at h
  cases he : encodeUtf8 s with
  | none => simp [he] at h
  | some bs =>
    obtain rfl : Sha256.hexdigest bs = d := by simpa [he] using h
    simp

lemma sha_ok {s : PyStr} (h : scalars s = true) : ∃ d, sha s = .ok d ∧ scalars d = true := by
  rw [← encodeUtf8_isSome] at h
  obtain ⟨bs, hb⟩ := Option.isSome_iff_exists.mp h
  exact ⟨Sha256.hexdigest bs, by simp [sha, hb], scalars_of_ascii (Sha256.hexdigest_ascii bs)⟩

lemma scalars_of_sha {s d : PyStr} (h : sha s = .ok d) : scalars s = true := by
  rw [← encodeUtf8_isSome]
  unfold sha at h
  cases he : encodeUtf8 s with
  | none => simp [he] at h
  | some bs => rfl

def pathText (systemKey : PyStr) (steps : List (Json × PyStr)) : PyStr :=
  systemKey ++ steps.flatMap fun s => unitSep ++ stepKey s

lemma join_eq_pathText (k : PyStr) (steps : List (Json × PyStr)) :
    join unitSep (k :: steps.map stepKey) = pathText k steps := by
  induction steps generalizing k with
  | nil => simp [join, pathText]
  | cons s steps ih => simp [join, ih, pathText]

lemma pathText_concat (k : PyStr) (steps : List (Json × PyStr)) (s : Json × PyStr) :
    pathText k (steps ++ [s]) =
      pathText k steps ++ (unitSep ++ (roleText s.1).getD [] ++ py ":") ++ s.2 := by
  simp [pathText, stepKey]

lemma pathText_injective {k k' : PyStr} (hk : k.length = k'.length)
    {steps steps' : List (Json × PyStr)} (h64 : ∀ s ∈ steps, s.2.length = 64)
    (h64' : ∀ s ∈ steps', s.2.length = 64)
    (hrole : ∀ s ∈ steps, ∀ s' ∈ steps', s.2 = s'.2 → roleText s.1 = roleText s'.1)
    (h : pathText k steps = pathText k' steps') :
    k = k' ∧ List.Forall₂ (fun s s' => s.2 = s'.2) steps steps' := by
  induction steps using List.reverseRecOn generalizing steps' with
  | nil =>
    rcases List.eq_nil_or_concat steps' with rfl | ⟨rest', s', rfl⟩
    · exact ⟨by simpa [pathText] using h, .nil⟩
    · have hl := congrArg List.length h
      simp [pathText, unitSep] at hl
      omega
  | append_singleton rest s ih =>
    rcases List.eq_nil_or_concat steps' with rfl | ⟨rest', s', rfl⟩
    · have hl := congrArg List.length h
      simp [pathText, unitSep] at hl
      omega
    · rw [List.concat_eq_append] at h h64' hrole ⊢
      rw [pathText_concat, pathText_concat] at h
      obtain ⟨h, hfp⟩ := List.append_inj' h (by rw [h64 s (by simp), h64' s' (by simp)])
      rw [hrole s (by simp) s' (by simp) hfp] at h
      obtain ⟨hk', hrest⟩ := ih (fun x hx => h64 x (by simp [hx]))
        (fun x hx => h64' x (by simp [hx]))
        (fun x hx y hy => hrole x (by simp [hx]) y (by simp [hy])) (List.append_cancel_right h)
      exact ⟨hk', List.rel_append hrest (.cons hfp .nil)⟩

lemma wf_stripBillingBlocks {system : Json} (h : system.wf = true) :
    (stripBillingBlocks system).wf = true := by
  cases system with
  | arr bs =>
    simp only [stripBillingBlocks, Json.wf, Json.wfItems_iff] at h ⊢
    exact fun b hb => h b (List.mem_of_mem_filter hb)
  | _ => exact h

lemma unicode_fingerprinted (m : Dict PyStr Json) : (fingerprinted m).unicode =
    ((getNone m (py "role")).unicode && (getNone m (py "content")).unicode) := by
  simp [fingerprinted, Json.unicode, Json.unicodePairs,
    show scalars (py "role") = true by decide, show scalars (py "content") = true by decide]

def StringStep (s : Json × PyStr) :
    Prop := ∃ r, s.1 = .str r ∧ scalars r = true ∧ scalars s.2 = true

lemma messageStep_proper {m : Dict PyStr Json} {r : PyStr} (hr : getNone m (py "role") = .str r)
    (hrole : (getNone m (py "role")).unicode = true)
    (hcontent : (getNone m (py "content")).unicode = true) :
    ∃ s, messageStep (.obj m) = .ok s ∧ StringStep s := by
  obtain ⟨d, hd, hs⟩ : ∃ d, msgFingerprint m = .ok d ∧ scalars d = true :=
    sha_ok (by rw [scalars_dumpsSorted, unicode_fingerprinted, hrole, hcontent, Bool.and_true])
  refine ⟨(roleOf m, d), by simp [messageStep, hd, bind, Except.bind], ?_⟩
  have hru : scalars r = true := by simpa [hr, Json.unicode] using hrole
  by_cases he : r.isEmpty = true
  · exact ⟨py "?", by simp [roleOf, hr, Json.truthy, he], by decide, hs⟩
  · exact ⟨r, by simp [roleOf, hr, Json.truthy, he], hru, hs⟩

lemma messageSteps_proper
    (hp : ∀ v ∈ vs, ∃ m r, v = .obj m ∧ getNone m (py "role") = .str r)
    (hu : ∀ m, .obj m ∈ vs →
      (getNone m (py "role")).unicode = true ∧ (getNone m (py "content")).unicode = true) :
    ∃ steps, messageSteps vs = .ok steps ∧ ∀ s ∈ steps, StringStep s := by
  induction vs with
  | nil => exact ⟨[], rfl, by simp⟩
  | cons v vs ih =>
    obtain ⟨m, r, rfl, hr⟩ := hp v (by simp)
    obtain ⟨s, hs, hstr⟩ := messageStep_proper hr (hu m (by simp)).1 (hu m (by simp)).2
    obtain ⟨rest, hrest, hall⟩ :=
      ih (fun x hx => hp x (by simp [hx])) fun m hm => hu m (by simp [hm])
    exact ⟨s :: rest, by simp [messageSteps, hs, hrest, bind, Except.bind],
      List.forall_mem_cons.mpr ⟨hstr, hall⟩⟩

lemma encodable_of_threadId {c : ApiCall} {id : PyStr × Bool} (h : threadId c = .ok id) :
    c.Encodable := by
  obtain ⟨seq, hseq, -⟩ := PyValue.bind_eq_ok.mp h
  obtain ⟨fp, hfp, hseq⟩ := PyValue.bind_eq_ok.mp hseq
  obtain ⟨digest, hdigest, -⟩ := PyValue.bind_eq_ok.mp hfp
  obtain ⟨steps, hsteps, -⟩ := PyValue.bind_eq_ok.mp hseq
  refine ⟨by rw [← scalars_dumpsSorted, scalars_of_sha hdigest], fun m hm => ?_⟩
  obtain ⟨s, -, hs⟩ := RelatedLists.forall₂_mem_left (messageSteps_ok hsteps) hm
  obtain ⟨m', hm', -, hfp⟩ := messageStep_ok hs
  obtain rfl := Json.obj.inj hm'
  have hu := scalars_of_sha hfp
  rwa [scalars_dumpsSorted, unicode_fingerprinted, Bool.and_eq_true] at hu

lemma isAssistant_iff_role {v : Json} {s : Json × PyStr} (h : messageStep v = .ok s) :
    s.1 = .str (py "assistant") ↔ isAssistant v = true := by
  obtain ⟨m, rfl, hr, -⟩ := messageStep_ok h
  rw [hr, isAssistant, decide_eq_true_eq, roleOf]
  split_ifs with ht
  · rfl
  · constructor
    · simp [show py "?" ≠ py "assistant" by simp]
    · intro he
      simp [he, Json.truthy, show py "assistant" ≠ [] by decide] at ht

lemma toAnchor_messageSteps {steps : List (Json × PyStr)} (h : messageSteps vs = .ok steps) :
    (toAnchor steps).isSome = vs.any isAssistant ∧
      messageSteps (upToAssistant vs) = .ok ((toAnchor steps).getD steps) := by
  induction vs generalizing steps with
  | nil =>
    obtain rfl : [] = steps := by simpa [messageSteps] using h
    exact ⟨rfl, rfl⟩
  | cons v vs ih =>
    obtain ⟨s, rest, hv, hvs, rfl⟩ := messageSteps_cons h
    obtain ⟨hany, hpath⟩ := ih hvs
    by_cases ha : isAssistant v = true
    · have hs := (isAssistant_iff_role hv).mpr ha
      simp [toAnchor, hs, ha, upToAssistant, messageSteps, hv, bind, Except.bind]
    · have hs := mt (isAssistant_iff_role hv).mp ha
      simp only [toAnchor, hs, if_false, List.any_cons, ha, Bool.false_eq_true, Bool.false_or,
        Option.isSome_map, hany, upToAssistant, messageSteps, hv, hpath,
          bind, Except.bind, true_and]
      cases toAnchor rest <;> rfl

def systemKey (digest : PyStr) : PyStr := stepKey (.str (py "system"), py "sys:" ++ digest)

/-- A call whose system prompt has digest `h` and whose messages up to the anchor are `path`. -/
structure Laid (c : ApiCall) (h : PyStr) (path : List (Json × PyStr)) : Prop where
  system : sha (stripBillingBlocks c.system).dumpsSorted = .ok h
  steps : messageSteps (upToAssistant c.messages) = .ok path
  text : c.pathTexts = [pathText (systemKey h) path]
  id : ∃ d, sha (pathText (systemKey h) path) = .ok d ∧
    threadId c = .ok (py "t" ++ d.take 12, !c.hasAssistant)

lemma scalars_pathText {k : PyStr} (hk : scalars k = true) {steps : List (Json × PyStr)}
    (h : ∀ s ∈ steps, StringStep s) : scalars (pathText k steps) = true := by
  rw [pathText, scalars_append, hk, Bool.true_and]
  induction steps with
  | nil => rfl
  | cons s steps ih =>
    obtain ⟨r, hr, hrs, hfp⟩ := h s (by simp)
    have hkey : scalars (stepKey s) = true := by
      simp [stepKey, hr, roleText, hrs, hfp, show scalars (py ":") = true by decide]
    simp [ih fun x hx => h x (by simp [hx]), hkey, show scalars unitSep = true by decide]

lemma toAnchor_cons_system {s : Json × PyStr} (hs : s.1 = .str (py "system"))
    (steps : List (Json × PyStr)) : toAnchor (s :: steps) = (toAnchor steps).map (s :: ·) := by
  rw [toAnchor, hs, if_neg (by decide)]

lemma branchId_eq {k : PyStr} {steps : List (Json × PyStr)} {d : PyStr}
    (h : sha (pathText k steps) = .ok d) :
    branchId (k :: steps.map stepKey) = .ok (py "t" ++ d.take 12) := by
  simp [branchId, join_eq_pathText, h, bind, Except.bind]

theorem exists_laid {c : ApiCall} (hp : c.Proper) (hu : c.Encodable) : ∃ h path, Laid c h path := by
  obtain ⟨h, hh, hsc⟩ := sha_ok (s := (stripBillingBlocks c.system).dumpsSorted) (by
    rw [scalars_dumpsSorted, hu.1])
  obtain ⟨steps, hsteps, hstr⟩ := messageSteps_proper hp hu.2
  obtain ⟨hany, hpath⟩ := toAnchor_messageSteps hsteps
  have hseq : callSeq c.system c.messages =
      .ok ((.str (py "system"), py "sys:" ++ h) :: steps) := by
    simp [callSeq, systemFp, hh, hsteps, bind, Except.bind]
  have hkey : scalars (systemKey h) = true := by
    simp [systemKey, stepKey, roleText, hsc, show scalars (py "system") = true by decide,
      show scalars (py ":") = true by decide, show scalars (py "sys:") = true by decide]
  obtain ⟨d, hd, -⟩ := sha_ok (scalars_pathText hkey fun s hs =>
    hstr s ((getD_toAnchor_isPrefix _).subset hs))
  have hroles : (((Json.str (py "system"), py "sys:" ++ h) :: steps).all fun s =>
      (roleText s.1).isSome) = true := by
    refine List.all_eq_true.mpr (List.forall_mem_cons.mpr ⟨rfl, fun s hs => ?_⟩)
    obtain ⟨r, hr, -⟩ := hstr s hs
    simp [hr, roleText]
  refine ⟨h, _, hh, hpath, ?_, d, hd, ?_⟩
  · simp only [ApiCall.pathTexts, hseq, toAnchor_cons_system, ← join_eq_pathText]
    cases toAnchor steps <;> rfl
  · simp only [threadId, hseq, bind, Except.bind, hroles, if_true, toAnchor_cons_system,
      ApiCall.hasAssistant, ← hany]
    cases ha : toAnchor steps with
    | none =>
      rw [ha] at hd
      exact congrArg (Except.map fun b => (b, true)) (branchId_eq hd)
    | some path =>
      rw [ha] at hd
      exact congrArg (Except.map fun b => (b, false)) (branchId_eq hd)

lemma upToAssistant_isPrefix (vs : List Json) : upToAssistant vs <+: vs := by
  induction vs with
  | nil => exact List.prefix_rfl
  | cons v vs ih =>
    rw [upToAssistant]
    split_ifs
    · exact ⟨vs, rfl⟩
    · exact (List.prefix_cons_inj v).mpr ih

section Pair
variable {c d : ApiCall} {hc hd : PyStr} {path path' : List (Json × PyStr)}

lemma fp_eq_iff (hn : NoCollision sha (c.hashed ++ d.hashed)) {v w : Json} {s t : Json × PyStr}
    (hv : v ∈ c.messages) (hw : w ∈ d.messages) (hs : messageStep v = .ok s)
    (ht : messageStep w = .ok t) : s.2 = t.2 ↔ SameMessage v w := by
  obtain ⟨m, rfl, -, hm⟩ := messageStep_ok hs
  obtain ⟨m', rfl, -, hm'⟩ := messageStep_ok ht
  have hdumps := dumpsSorted_eq_iff (wf_fingerprinted (c.wf_messages _ hv))
    (wf_fingerprinted (d.wf_messages _ hw))
  rw [same_fingerprinted_iff] at hdumps
  constructor
  · intro he
    have := hn _ (List.mem_append_left _ (mem_hashed hv)) _
      (List.mem_append_right _ (mem_hashed hw))
      s.2 hm (he ▸ hm')
    exact ⟨m, m', rfl, rfl, hdumps.mp this⟩
  · rintro ⟨n, n', hn1, hn2, hsame⟩
    obtain rfl := Json.obj.inj hn1
    obtain rfl := Json.obj.inj hn2
    rw [msgFingerprint, hdumps.mpr hsame] at hm
    exact Except.ok.inj (hm.symm.trans hm')

lemma systemDigest_eq_iff (hn : NoCollision sha (c.hashed ++ d.hashed))
    (lc : sha (stripBillingBlocks c.system).dumpsSorted = .ok hc)
    (ld : sha (stripBillingBlocks d.system).dumpsSorted = .ok hd) :
    hc = hd ↔ (stripBillingBlocks c.system).Same (stripBillingBlocks d.system) := by
  rw [← dumpsSorted_eq_iff (wf_stripBillingBlocks c.wf_system) (wf_stripBillingBlocks d.wf_system)]
  constructor
  · rintro rfl
    exact hn _ (by simp [ApiCall.hashed]) _ (by simp [ApiCall.hashed]) hc lc ld
  · intro he
    rw [he] at lc
    exact Except.ok.inj (lc.symm.trans ld)

lemma steps_agree_iff (hn : NoCollision sha (c.hashed ++ d.hashed)) {vs ws : List Json}
    {p q : List (Json × PyStr)} (hvs : vs ⊆ c.messages) (hws : ws ⊆ d.messages)
    (hp : messageSteps vs = .ok p) (hq : messageSteps ws = .ok q) :
    List.Forall₂ (fun s t => s.2 = t.2) p q ↔ List.Forall₂ SameMessage vs ws := by
  induction vs generalizing ws p q with
  | nil =>
    obtain rfl : [] = p := by simpa [messageSteps] using hp
    cases ws with
    | nil =>
      obtain rfl : [] = q := by simpa [messageSteps] using hq
      simp
    | cons w ws =>
      obtain ⟨t, rest, -, -, rfl⟩ := messageSteps_cons hq
      simp
  | cons v vs ih =>
    obtain ⟨s, p, hv, hp', rfl⟩ := messageSteps_cons hp
    cases ws with
    | nil =>
      obtain rfl : [] = q := by simpa [messageSteps] using hq
      simp
    | cons w ws =>
      obtain ⟨t, q, hw, hq', rfl⟩ := messageSteps_cons hq
      rw [List.forall₂_cons, List.forall₂_cons, fp_eq_iff hn (hvs (by simp)) (hws (by simp)) hv hw,
        ih (fun x hx => hvs (by simp [hx])) (fun x hx => hws (by simp [hx])) hp' hq']

lemma fps_length {p : List (Json × PyStr)} (hp : messageSteps vs = .ok p) :
    ∀ s ∈ p, s.2.length = 64 := by
  intro s hs
  obtain ⟨m, -, -, hm⟩ := exists_message hp hs
  exact sha_length hm

lemma systemKey_injective {h h' : PyStr} (he : systemKey h = systemKey h') : h = h' := by
  simpa [systemKey, stepKey, roleText] using he

theorem pathText_eq_iff (hn : NoCollision sha (c.hashed ++ d.hashed)) (lc : Laid c hc path)
    (ld : Laid d hd path') :
    pathText (systemKey hc) path = pathText (systemKey hd) path' ↔ SameThread c d := by
  have hsys := systemDigest_eq_iff hn lc.system ld.system
  have hsteps := steps_agree_iff hn (upToAssistant_isPrefix c.messages).subset
    (upToAssistant_isPrefix d.messages).subset lc.steps ld.steps
  have hrole : ∀ s ∈ path, ∀ t ∈ path', s.2 = t.2 → roleText s.1 = roleText t.1 := by
    intro s hs t ht he
    obtain ⟨m, hm, hr, hf⟩ := exists_message lc.steps hs
    obtain ⟨m', hm', hr', hf'⟩ := exists_message ld.steps ht
    have hsm := (fp_eq_iff hn ((upToAssistant_isPrefix _).subset hm)
      ((upToAssistant_isPrefix _).subset hm') (s := (roleOf m, s.2)) (t := (roleOf m', t.2))
      (by simp [messageStep, hf, bind, Except.bind])
      (by simp [messageStep, hf', bind, Except.bind])).mp he
    obtain ⟨n, n', hn1, hn2, hsame, -⟩ := hsm
    obtain rfl := Json.obj.inj hn1
    obtain rfl := Json.obj.inj hn2
    rw [hr, hr', roleText_roleOf_congr hsame]
  have hlen : (systemKey hc).length = (systemKey hd).length := by
    simp [systemKey, stepKey, sha_length lc.system, sha_length ld.system]
  constructor
  · intro h
    obtain ⟨hk, hfps⟩ := pathText_injective hlen (fps_length lc.steps) (fps_length ld.steps) hrole h
    exact ⟨hsys.mp (systemKey_injective hk), hsteps.mp hfps⟩
  · rintro ⟨hs, hm⟩
    have hmap : path.map Prod.snd = path'.map Prod.snd := by
      rw [← List.forall₂_eq_eq_eq, List.forall₂_map_left_iff, List.forall₂_map_right_iff]
      exact hsteps.mpr hm
    have hkeys : path.map stepKey = path'.map stepKey :=
      map_congr_of_map_eq (fun s hs t ht he => by rw [stepKey, stepKey,
        hrole s hs t ht he, he]) hmap
    rw [← join_eq_pathText, ← join_eq_pathText, hsys.mpr hs, hkeys]

end Pair

lemma sameMessage_isAssistant {v w : Json} (h : SameMessage v w) :
    isAssistant v = isAssistant w := by
  obtain ⟨m, m', rfl, rfl, hr, -⟩ := h
  have hrole : ∀ u : Json, u.canon = .str (py "assistant") ↔ u = .str (py "assistant") := by
    intro u
    cases u <;> simp [Json.canon]
  have hc := hrole (getNone m (py "role"))
  rw [show (getNone m (py "role")).canon = _ from hr, hrole] at hc
  simp only [isAssistant, hc]

lemma any_upToAssistant (vs : List Json) :
    (upToAssistant vs).any isAssistant = vs.any isAssistant := by
  induction vs with
  | nil => rfl
  | cons v vs ih =>
    rw [upToAssistant]
    split_ifs with h
    · simp [h]
    · simp [ih]

lemma any_isAssistant_eq {vs ws : List Json} (h : List.Forall₂ SameMessage vs ws) :
    vs.any isAssistant = ws.any isAssistant := by
  induction h with
  | nil => rfl
  | cons hv _ ih => simp [sameMessage_isAssistant hv, ih]

lemma SameThread.hasAssistant_eq (h : SameThread c d) :
    c.hasAssistant = d.hasAssistant := by
  rw [ApiCall.hasAssistant, ApiCall.hasAssistant, ← any_upToAssistant,
    ← any_upToAssistant d.messages]
  exact any_isAssistant_eq h.2

lemma upToAssistant_append (h : vs.any isAssistant = true) (ws : List Json) :
    upToAssistant (vs ++ ws) = upToAssistant vs := by
  induction vs with
  | nil => simp at h
  | cons v vs ih =>
    rw [List.cons_append, upToAssistant, upToAssistant]
    split_ifs with hv
    · rfl
    · rw [ih (by simpa [hv] using h)]

lemma upToAssistant_split {a : Json} (hvs : vs.any isAssistant = false)
    (ha : isAssistant a = true) (ws : List Json) : upToAssistant (vs ++ a :: ws) = vs ++ [a] := by
  induction vs with
  | nil => simp [upToAssistant, ha]
  | cons v vs ih =>
    simp only [List.any_cons, Bool.or_eq_false_iff] at hvs
    rw [List.cons_append, upToAssistant, if_neg (by simp [hvs.1]), ih hvs.2, List.cons_append]

lemma sameMessage_refl {m : Dict PyStr Json} : SameMessage (.obj m) (.obj m) :=
  ⟨m, m, rfl, rfl, rfl, rfl⟩

lemma sameThread_of_append (hp : c.Proper) (ha : c.hasAssistant = true)
    (hs : (stripBillingBlocks c.system).Same (stripBillingBlocks d.system))
    (hm : c.messages <+: d.messages) : SameThread c d := by
  refine ⟨hs, ?_⟩
  obtain ⟨rest, hrest⟩ := hm
  rw [← hrest, upToAssistant_append ha, List.forall₂_same]
  intro v hv
  obtain ⟨m, r, rfl, -⟩ := hp v ((upToAssistant_isPrefix _).subset hv)
  exact sameMessage_refl

lemma not_sameThread_of_replies {prompt rest rest' : List Json} {a b : Json}
    (hc : c.messages = prompt ++ a :: rest) (hd : d.messages = prompt ++ b :: rest')
    (hprompt : prompt.any isAssistant = false) (ha : isAssistant a = true)
    (hb : isAssistant b = true) (hab : ¬ SameMessage a b) : ¬ SameThread c d := by
  rintro ⟨-, hm⟩
  rw [hc, hd, upToAssistant_split hprompt ha, upToAssistant_split hprompt hb] at hm
  have hlast := List.forall₂_drop prompt.length hm
  rw [List.drop_left, List.drop_left, List.forall₂_cons] at hlast
  exact hab hlast.1

lemma ApiCall.Encodable.of_append (hd : d.Encodable)
    (hs : (stripBillingBlocks c.system).Same (stripBillingBlocks d.system))
    (hm : c.messages <+: d.messages) : c.Encodable := by
  refine ⟨?_, fun m hmem => hd.2 m (hm.subset hmem)⟩
  rw [← scalars_dumpsSorted, (dumpsSorted_eq_iff (wf_stripBillingBlocks c.wf_system)
    (wf_stripBillingBlocks d.wf_system)).mpr hs, scalars_dumpsSorted, hd.1]

/-- The calls get one id, each behind the calls in front of it. -/
def SharesId (before before' : List ApiCall) (c d : ApiCall) : Prop :=
  ∃ i p q, (mount (mountAll Tree.empty before) c).2 = .ok (i, p) ∧
    (mount (mountAll Tree.empty before') d).2 = .ok (i, q)

lemma threadId_eq_iff (hn : NoCollision sha (c.hashed ++ d.hashed))
    (htrunc : NoCollision shaTruncated (c.pathTexts ++ d.pathTexts))
    (hc : c.Proper) (hd : d.Proper) :
    (∃ i p q, threadId c = .ok (i, p) ∧ threadId d = .ok (i, q)) ↔
      SameThread c d ∧ c.Encodable ∧ d.Encodable := by
  constructor
  · rintro ⟨i, p, q, hi, hj⟩
    have huc := encodable_of_threadId hi
    have hud := encodable_of_threadId hj
    obtain ⟨h, path, lc⟩ := exists_laid hc huc
    obtain ⟨h', path', ld⟩ := exists_laid hd hud
    obtain ⟨x, hx, hcid⟩ := lc.id
    obtain ⟨y, hy, hdid⟩ := ld.id
    obtain ⟨rfl, -⟩ := Prod.mk.inj (Except.ok.inj (hcid.symm.trans hi))
    obtain ⟨he, -⟩ := Prod.mk.inj (Except.ok.inj (hdid.symm.trans hj))
    have htext : pathText (systemKey h) path = pathText (systemKey h') path' := by
      refine htrunc _ (by simp [lc.text]) _ (by simp [ld.text]) (x.take 12) ?_ ?_
      · simp [shaTruncated, hx, Except.map]
      · simp [shaTruncated, hy, Except.map, List.append_cancel_left he]
    exact ⟨(pathText_eq_iff hn lc ld).mp htext, huc, hud⟩
  · rintro ⟨hsame, huc, hud⟩
    obtain ⟨h, path, lc⟩ := exists_laid hc huc
    obtain ⟨h', path', ld⟩ := exists_laid hd hud
    obtain ⟨x, hx, hcid⟩ := lc.id
    obtain ⟨y, hy, hdid⟩ := ld.id
    rw [(pathText_eq_iff hn lc ld).mpr hsame] at hx
    obtain rfl := Except.ok.inj (hx.symm.trans hy)
    exact ⟨_, _, _, hcid, hdid⟩

/-- A call gets an id, marked as provisional where it has no assistant message, if and only if
nothing hashed of it holds a lone surrogate. Two calls mounted on any trees share an id exactly
when both get one and they agree up to the first assistant message; so appending keeps the id,
different first replies separate it, and a provisional id is never an anchored one. -/
theorem thread_id_characterised (before before' : List ApiCall) (c d : ApiCall) (hc : c.Proper)
    (hd : d.Proper)
    (hsha : NoCollision sha ((c :: d :: (before ++ before')).flatMap ApiCall.hashed))
    (htrunc : NoCollision shaTruncated (c.pathTexts ++ d.pathTexts)) :
    ((∃ i, (mount (mountAll Tree.empty before) c).2 = .ok (i, !c.hasAssistant)) ↔ c.Encodable) ∧
      (SharesId before before' c d ↔ SameThread c d ∧ c.Encodable ∧ d.Encodable) ∧
      (c.hasAssistant = true →
        (stripBillingBlocks c.system).Same (stripBillingBlocks d.system) →
        c.messages <+: d.messages → d.Encodable → SharesId before before' c d) ∧
      (∀ prompt a b rest rest', c.messages = prompt ++ a :: rest →
        d.messages = prompt ++ b :: rest' →
        prompt.any isAssistant = false → isAssistant a = true → isAssistant b = true →
        ¬ SameMessage a b → ¬ SharesId before before' c d) ∧
      (c.hasAssistant ≠ d.hasAssistant → ¬ SharesId before before' c d) := by
  have hpair : NoCollision sha (c.hashed ++ d.hashed) := by
    intro s hs t ht
    refine hsha s ?_ t ?_
    · rw [List.flatMap_cons, List.flatMap_cons, ← List.append_assoc]
      exact List.mem_append_left _ hs
    · rw [List.flatMap_cons, List.flatMap_cons, ← List.append_assoc]
      exact List.mem_append_left _ ht
  have hiff : SharesId before before' c d ↔ SameThread c d ∧ c.Encodable ∧ d.Encodable := by
    rw [SharesId, mount_mountAll hsha (fun e he => by simp [he]) (by simp),
      mount_mountAll hsha (fun e he => by simp [he]) (by simp)]
    exact threadId_eq_iff hpair htrunc hc hd
  refine ⟨?_, hiff, fun ha hs hm hu => hiff.mpr ⟨sameThread_of_append hc ha hs hm,
    ApiCall.Encodable.of_append hu hs hm, hu⟩, ?_, fun hne he => hne (hiff.mp he).1.hasAssistant_eq⟩
  · rw [mount_mountAll hsha (fun e he => by simp [he]) (by simp)]
    constructor
    · rintro ⟨i, hi⟩
      exact encodable_of_threadId hi
    · intro hu
      obtain ⟨h, path, lc⟩ := exists_laid hc hu
      obtain ⟨x, -, hid⟩ := lc.id
      exact ⟨_, hid⟩
  · exact fun prompt a b rest rest' hcm hdm hp ha hb hab he =>
      not_sameThread_of_replies hcm hdm hp ha hb hab (hiff.mp he).1

def otherReply : ApiCall where
  system := text "S"
  messages := [message "user" (text "hi"), message "assistant" (text "B1")]
  wf_system := wf_text "S"
  wf_messages := by decide

lemma proper_of_messages {c : ApiCall} {l : List (String × Json)}
    (hm : c.messages = l.map fun rc => message rc.1 rc.2) : c.Proper := by
  intro v hv
  rw [hm] at hv
  obtain ⟨rc, -, rfl⟩ := List.mem_map.mp hv
  exact ⟨_, py rc.1, rfl, by simp [getNone, get?_cons, text]⟩

lemma encodable_of_unicode {c : ApiCall} (hs : (stripBillingBlocks c.system).unicode = true)
    (hm : ∀ v ∈ c.messages, v.unicode = true) : c.Encodable :=
  ⟨hs, fun _ hmem => ⟨unicode_getNone (hm _ hmem) _, unicode_getNone (hm _ hmem) _⟩⟩

theorem thread_id_characterised_parallel_agents :
    (∃ i, (mount (mountAll Tree.empty [firstFrame]) afterReply).2 = .ok (i, false)) ∧
      (∃ i, (mount (mountAll Tree.empty []) otherReply).2 = .ok (i, false)) ∧
      ¬ SharesId [firstFrame] [] afterReply otherReply := by
  have hc : afterReply.Proper :=
    proper_of_messages (l := [("user", text "hi"), ("assistant", text "A1")]) rfl
  have hd : otherReply.Proper :=
    proper_of_messages (l := [("user", text "hi"), ("assistant", text "B1")]) rfl
  have hab : ¬ SameMessage (message "assistant" (text "A1")) (message "assistant" (text "B1")) := by
    rintro ⟨m, m', hm, hm', -, hcontent⟩
    obtain rfl := Json.obj.inj hm
    obtain rfl := Json.obj.inj hm'
    exact absurd hcontent (by decide)
  obtain ⟨hi, -, -, hreplies, -⟩ := thread_id_characterised [firstFrame] [] afterReply
    otherReply hc hd (by decide +kernel) (by decide +kernel)
  obtain ⟨hj, -⟩ := thread_id_characterised [] [firstFrame] otherReply afterReply hd hc
    (by decide +kernel) (by decide +kernel)
  exact ⟨hi.mpr (encodable_of_unicode (by decide) (by decide)),
    hj.mpr (encodable_of_unicode (by decide) (by decide)),
    hreplies [message "user" (text "hi")] _ _ [] [] rfl rfl (by decide) (by decide) (by decide) hab⟩

/-- A reply that is half of a surrogate pair. -/
def brokenReply : ApiCall where
  system := text "S"
  messages := [message "user" (text "hi"), message "assistant" (.str [0xD83D])]
  wf_system := wf_text "S"
  wf_messages := by decide

/-- The call agrees with itself, and it gets no id. -/
theorem broken_reply_has_no_id :
    brokenReply.Proper ∧ brokenReply.hasAssistant = true ∧ SameThread brokenReply brokenReply ∧
      (mount Tree.empty brokenReply).2 = .error .unicodeEncodeError := by
  have hp : brokenReply.Proper :=
    proper_of_messages (l := [("user", text "hi"), ("assistant", .str [0xD83D])]) rfl
  exact ⟨hp, by decide, sameThread_of_append hp (by decide) rfl List.prefix_rfl, by decide +kernel⟩

end AgentTrajectory.MessageTree
