import AgentTrajectory.MessageTree

/-! A thread id does not depend on the tree it is computed on. Children are keyed by
fingerprint alone while the id hashes `role:fingerprint` keys, and an id is cached on a
node by whichever call reaches it first; the invariant says that every cached id is the
id of the key path of some mounted call, and without hash collisions a path of
fingerprints has one key path. -/
namespace AgentTrajectory.MessageTree
open PyText PyDict PyJson

variable {G : Ref → Prop} {t : Tree}

def roleText : Json → Option PyStr
  | .str r => some r
  | _ => none

def stepKey (s : Json × PyStr) : PyStr := (roleText s.1).getD [] ++ py ":" ++ s.2

def toAnchor : List (Json × PyStr) → Option (List (Json × PyStr))
  | [] => none
  | s :: rest => if s.1 = .str (py "assistant") then some [s] else (toAnchor rest).map (s :: ·)

def extend (node : Ref) (path : List (Json × PyStr)) : Ref :=
  (node.1 ++ path.map Prod.snd, node.2 ++ path.map stepKey)

/-- The pair `mount_call` should return, as a function of the call alone. -/
def threadId (c : ApiCall) : Except PyError (PyStr × Bool) := do
  let seq ← callSeq c.system c.messages
  if seq.all fun s => (roleText s.1).isSome then
    match toAnchor seq with
    | none => (branchId (seq.map stepKey)).map fun b => (b, true)
    | some path => (branchId (path.map stepKey)).map fun b => (b, false)
  else .error .typeError

lemma toAnchor_isPrefix {seq path : List (Json × PyStr)} (h : toAnchor seq = some path) :
    path <+: seq := by
  induction seq generalizing path with
  | nil => simp [toAnchor] at h
  | cons s rest ih =>
    simp only [toAnchor] at h
    split_ifs at h with hs
    · obtain rfl := Option.some.inj h
      exact ⟨rest, rfl⟩
    · obtain ⟨q, hq, rfl⟩ := Option.map_eq_some_iff.mp h
      exact (List.prefix_cons_inj s).mpr (ih hq)

lemma getD_toAnchor_isPrefix (seq : List (Json × PyStr)) : (toAnchor seq).getD seq <+: seq := by
  cases h : toAnchor seq with
  | none => exact List.prefix_rfl
  | some path => exact toAnchor_isPrefix h

lemma extend_nil (node : Ref) : extend node [] = node := by simp [extend]

lemma extend_cons (node : Ref) (s : Json × PyStr) (path : List (Json × PyStr)) :
    extend node (s :: path) = extend (node.1 ++ [s.2], node.2 ++ [stepKey s]) path := by
  simp [extend]

lemma mountLoop_snd (t : Tree) (node : Ref) (anchor : Option Ref) (seq : List (Json × PyStr)) :
    (mountLoop t node anchor seq).2 =
      if seq.all fun s => (roleText s.1).isSome then
        .ok (extend node seq, anchor.or ((toAnchor seq).map (extend node)))
      else .error .typeError := by
  induction seq generalizing t node anchor with
  | nil => simp [mountLoop, toAnchor, extend_nil]
  | cons s rest ih =>
    obtain ⟨role, fp⟩ := s
    cases role with
    | str r =>
      have hk : stepKey (.str r, fp) = r ++ py ":" ++ fp := by simp [stepKey, roleText]
      simp only [mountLoop, ih, List.all_cons, roleText, Option.isSome_some, Bool.true_and,
        extend_cons, hk, toAnchor, Json.str.injEq]
      congr 3
      cases anchor with
      | some a => simp
      | none =>
        by_cases hr : r = py "assistant"
        · simp [hr, extend, stepKey, roleText]
        · simp [hr, Function.comp_def, extend_cons, hk]
    | _ => simp [mountLoop, roleText]

def Stamped (G : Ref → Prop) (t : Tree) : Prop :=
  ∀ p d b, t.valAt p = some d → d.branchId = some b → ∃ ks, G (p, ks) ∧ branchId ks = .ok b

lemma stamped_empty (G : Ref → Prop) : Stamped G Tree.empty := by
  intro p d b hp hb
  cases p with
  | nil =>
    obtain rfl := Option.some.inj hp
    simp [Tree.empty, PrefixTree.leaf, PrefixTree.val] at hb
  | cons k ks => simp [Tree.empty, PrefixTree.valAt_leaf_cons] at hp

lemma stamped_ensureAt (ht : Stamped G t) {p : List PyStr}
    (hp : (t.valAt p).isSome) (fp : PyStr) (role : Json) :
    Stamped G (t.ensureAt p fp ⟨fp, role, false, none⟩) := by
  intro q d b hq hb
  rw [PrefixTree.valAt_ensureAt t p q fp _ hp] at hq
  split_ifs at hq with he
  · cases hv : t.valAt q with
    | some e =>
      obtain rfl : e = d := by simpa [hv] using hq
      exact ht q e b hv hb
    | none =>
      obtain rfl : _ = d := by simpa [hv] using hq
      simp at hb
  · exact ht q d b hq hb

lemma mountLoop_stamped (ht : Stamped G t) {node : Ref}
    (hn : (t.valAt node.1).isSome) (anchor : Option Ref) (seq : List (Json × PyStr)) :
    Stamped G (mountLoop t node anchor seq).1 := by
  induction seq generalizing t node anchor with
  | nil => exact ht
  | cons s rest ih =>
    obtain ⟨role, fp⟩ := s
    have he := stamped_ensureAt ht hn fp role
    cases role with
    | str r =>
      refine ih he ?_ _
      simp [PrefixTree.valAt_ensureAt t _ _ fp _ hn]
    | _ => exact he

lemma stamped_updateAt (ht : Stamped G t) (p : List PyStr)
    (g : Node → Node) (hg : ∀ d b, (g d).branchId = some b → d.branchId = some b ∨
      ∃ ks, G (p, ks) ∧ branchId ks = .ok b) : Stamped G (t.updateAt p g) := by
  intro q d b hq hb
  rw [PrefixTree.valAt_updateAt] at hq
  split_ifs at hq with he
  · subst he
    obtain ⟨e, hv, rfl⟩ := Option.map_eq_some_iff.mp hq
    rcases hg e b hb with h | h
    · exact ht q e b hv h
    · exact h
  · exact ht q d b hq hb

lemma stamp_spec (hG : ∀ p ks ls, G (p, ks) → G (p, ls) → ks = ls)
    (ht : Stamped G t) {anchor : Ref} (ha : G anchor) (real : Bool) :
    (stamp t anchor real).2 = branchId anchor.2 ∧ Stamped G (stamp t anchor real).1 := by
  have hmark : Stamped G
      (if real then t.updateAt anchor.1 fun d => { d with isAnchor := true } else t) := by
    split_ifs
    · exact stamped_updateAt ht _ _ fun d b hb => .inl hb
    · exact ht
  simp only [stamp]
  generalize (if real then t.updateAt anchor.1 fun d => { d with isAnchor := true } else t) = u
    at hmark
  cases hb : (u.valAt anchor.1).bind Node.branchId with
  | some b =>
    obtain ⟨d, hd, hdb⟩ := Option.bind_eq_some_iff.mp hb
    obtain ⟨ks, hks, hid⟩ := hmark _ d b hd hdb
    obtain rfl := hG _ _ _ hks ha
    exact ⟨hid.symm, hmark⟩
  | none =>
    cases hid : branchId anchor.2 with
    | error e => exact ⟨rfl, hmark⟩
    | ok b =>
      refine ⟨rfl, stamped_updateAt hmark _ _ fun d b' hb' => .inr ⟨anchor.2, ha, ?_⟩⟩
      rw [hid, Option.some.inj hb']

def RefOf (c : ApiCall) (r : Ref) : Prop :=
  ∃ seq, callSeq c.system c.messages = .ok seq ∧
    ∃ path, path <+: seq ∧ r = (path.map Prod.snd, path.map stepKey)

lemma mount_spec (hG : ∀ p ks ls, G (p, ks) → G (p, ls) → ks = ls)
    (ht : Stamped G t) {c : ApiCall} (hc : ∀ r, RefOf c r → G r) :
    (mount t c).2 = threadId c ∧ Stamped G (mount t c).1 := by
  cases hs : callSeq c.system c.messages with
  | error e => simp [mount, mountCall, threadId, hs, ht, bind, Except.bind]
  | ok seq =>
    have hloop := mountLoop_stamped ht (show (t.valAt (([], []) : Ref).1).isSome by simp) none seq
    have hres := mountLoop_snd t ([], []) none seq
    simp only [mount, mountCall, threadId, hs, bind, Except.bind]
    generalize mountLoop t ([], []) none seq = out at hloop hres
    obtain ⟨t', res⟩ := out
    simp only at hres hloop
    subst hres
    split_ifs with hall
    · have href : ∀ path, path <+: seq → G (extend ([], []) path) := fun path hp =>
        hc _ ⟨seq, hs, path, hp, by simp [extend]⟩
      cases ha : toAnchor seq with
      | none =>
        obtain ⟨h1, h2⟩ := stamp_spec hG hloop (href seq List.prefix_rfl) false
        simp only [Option.map_none, Option.or_none, h1, h2, and_true]
        simp [extend]
      | some path =>
        obtain ⟨h1, h2⟩ := stamp_spec hG hloop (href path (toAnchor_isPrefix ha)) true
        simp only [Option.map_some, Option.none_or, h1, h2, and_true]
        simp [extend]
    · exact ⟨rfl, hloop⟩

lemma mountAll_stamped (hG : ∀ p ks ls, G (p, ks) → G (p, ls) → ks = ls)
    (ht : Stamped G t) {calls : List ApiCall}
    (hc : ∀ c ∈ calls, ∀ r, RefOf c r → G r) : Stamped G (mountAll t calls) := by
  induction calls generalizing t with
  | nil => exact ht
  | cons c cs ih =>
    exact ih (mount_spec hG ht (hc c (by simp))).2 fun d hd => hc d (by simp [hd])

lemma replaySession_eq (hG : ∀ p ks ls, G (p, ks) → G (p, ls) → ks = ls)
    (ht : Stamped G t) {calls : List ApiCall}
    (hc : ∀ c ∈ calls, ∀ r, RefOf c r → G r) : replaySession t calls = calls.map threadId := by
  induction calls generalizing t with
  | nil => rfl
  | cons c cs ih =>
    obtain ⟨h1, h2⟩ := mount_spec hG ht (hc c (by simp))
    rw [replaySession, h1, ih h2 fun d hd => hc d (by simp [hd]), List.map_cons]

lemma canon_fingerprinted (m : Dict PyStr Json) :
    (fingerprinted m).canon = .obj [(py "content", (getNone m (py "content")).canon),
      (py "role", (getNone m (py "role")).canon)] := by
  have h : ¬ keyLe (py "role") (py "content") := by decide
  simp [fingerprinted, Json.canon, Json.canonPairs, sortPairs, h]

lemma same_fingerprinted_iff (m m' : Dict PyStr Json) : (fingerprinted m).Same (fingerprinted m') ↔
      (getNone m (py "role")).Same (getNone m' (py "role")) ∧
      (getNone m (py "content")).Same (getNone m' (py "content")) := by
  simp [Json.Same, canon_fingerprinted, and_comm]

lemma wf_fingerprinted {m : Dict PyStr Json} (h : (Json.obj m).wf = true) :
    (fingerprinted m).wf = true := by
  have hkeys : (keys [(py "role", getNone m (py "role")),
      (py "content", getNone m (py "content"))]).Nodup := by
    simp [keys, show py "role" ≠ py "content" by simp]
  simp [fingerprinted, Json.wf, Json.wfPairs, hkeys, wf_getNone h]

lemma roleText_canon (v : Json) : roleText v.canon = roleText v := by
  cases v <;> simp [Json.canon, roleText]

lemma roleText_roleOf_congr {m m' : Dict PyStr Json}
    (h : (getNone m (py "role")).Same (getNone m' (py "role"))) :
    roleText (roleOf m) = roleText (roleOf m') := by
  have ht := congrArg Json.truthy h
  have hr := congrArg roleText h
  rw [truthy_canon, truthy_canon] at ht
  rw [roleText_canon, roleText_canon] at hr
  simp only [roleOf, ht]
  split_ifs <;> simp [hr]

lemma callSeq_ok {system : Json} {messages : List Json} {seq : List (Json × PyStr)}
    (h : callSeq system messages = .ok seq) :
    ∃ fp steps, systemFp system = .ok fp ∧ messageSteps messages = .ok steps ∧
      seq = (.str (py "system"), fp) :: steps := by
  simp only [callSeq, bind, Except.bind] at h
  cases hs : systemFp system with
  | error e => simp [hs] at h
  | ok fp =>
    cases hm : messageSteps messages with
    | error e => simp [hs, hm] at h
    | ok steps => exact ⟨fp, steps, rfl, rfl, by simpa [hs, hm] using h.symm⟩

lemma messageStep_ok {v : Json} {s : Json × PyStr} (h : messageStep v = .ok s) :
    ∃ m, v = .obj m ∧ s.1 = roleOf m ∧ msgFingerprint m = .ok s.2 := by
  cases v with
  | obj m =>
    cases hf : msgFingerprint m with
    | error e => simp [messageStep, bind, Except.bind, hf] at h
    | ok fp =>
      obtain rfl : (roleOf m, fp) = s := by simpa [messageStep, bind, Except.bind, hf] using h
      exact ⟨m, rfl, rfl, hf⟩
  | _ => simp [messageStep] at h

lemma messageSteps_cons {v : Json} {vs : List Json} {steps : List (Json × PyStr)}
    (h : messageSteps (v :: vs) = .ok steps) :
    ∃ s rest, messageStep v = .ok s ∧ messageSteps vs = .ok rest ∧ steps = s :: rest := by
  simp only [messageSteps, bind, Except.bind] at h
  cases hv : messageStep v with
  | error e => simp [hv] at h
  | ok s =>
    cases hvs : messageSteps vs with
    | error e => simp [hv, hvs] at h
    | ok rest => exact ⟨s, rest, rfl, rfl, by simpa [hv, hvs] using h.symm⟩

lemma messageSteps_ok {vs : List Json} {steps : List (Json × PyStr)}
    (h : messageSteps vs = .ok steps) : List.Forall₂ (fun v s => messageStep v = .ok s) vs steps := by
  induction vs generalizing steps with
  | nil =>
    obtain rfl : [] = steps := by simpa [messageSteps] using h
    exact .nil
  | cons v vs ih =>
    obtain ⟨s, rest, hv, hvs, rfl⟩ := messageSteps_cons h
    exact .cons hv (ih hvs)

lemma exists_message {vs : List Json} {steps : List (Json × PyStr)}
    (h : messageSteps vs = .ok steps) {s : Json × PyStr} (hs : s ∈ steps) :
    ∃ m, .obj m ∈ vs ∧ s.1 = roleOf m ∧ msgFingerprint m = .ok s.2 := by
  obtain ⟨i, hi, rfl⟩ := List.mem_iff_getElem.mp hs
  have hf := messageSteps_ok h
  have hj : i < vs.length := hf.length_eq ▸ hi
  obtain ⟨m, hv, hr, hm⟩ := messageStep_ok (hf.get hj hi)
  exact ⟨m, hv ▸ List.getElem_mem hj, hr, hm⟩

lemma mem_hashed {c : ApiCall} {m : Dict PyStr Json} (h : .obj m ∈ c.messages) :
    (fingerprinted m).dumpsSorted ∈ c.hashed :=
  List.mem_cons_of_mem _ (List.mem_filterMap.mpr ⟨.obj m, h, rfl⟩)

lemma roleText_of_fp {calls : List ApiCall} (h : NoCollision sha (calls.flatMap ApiCall.hashed))
    {c c' : ApiCall} (hc : c ∈ calls) (hc' : c' ∈ calls) {steps steps' : List (Json × PyStr)}
    (hs : messageSteps c.messages = .ok steps) (hs' : messageSteps c'.messages = .ok steps')
    {s s' : Json × PyStr} (hm : s ∈ steps) (hm' : s' ∈ steps') (he : s.2 = s'.2) :
    roleText s.1 = roleText s'.1 := by
  obtain ⟨m, hv, hr, hf⟩ := exists_message hs hm
  obtain ⟨m', hv', hr', hf'⟩ := exists_message hs' hm'
  have hd := h _ (List.mem_flatMap.mpr ⟨c, hc, mem_hashed hv⟩) _
    (List.mem_flatMap.mpr ⟨c', hc', mem_hashed hv'⟩) s.2 hf (he ▸ hf')
  rw [dumpsSorted_eq_iff (wf_fingerprinted (c.wf_messages _ hv))
    (wf_fingerprinted (c'.wf_messages _ hv')), same_fingerprinted_iff] at hd
  rw [hr, hr', roleText_roleOf_congr hd.1]

lemma map_congr_of_map_eq {α β γ : Type*} {f : α → β} {g : α → γ} {l l' : List α}
    (h : ∀ x ∈ l, ∀ y ∈ l', f x = f y → g x = g y) (he : l.map f = l'.map f) :
    l.map g = l'.map g := by
  induction l generalizing l' with
  | nil => cases l' <;> simp_all
  | cons x xs ih =>
    cases l' with
    | nil => simp at he
    | cons y ys =>
      obtain ⟨h1, h2⟩ := List.cons.inj he
      rw [List.map_cons, List.map_cons, h x (by simp) y (by simp) h1,
        ih (fun a ha b hb => h a (by simp [ha]) b (by simp [hb])) h2]

def RefOfAny (calls : List ApiCall) (r : Ref) : Prop := ∃ c ∈ calls, RefOf c r

lemma refOfAny_functional {calls : List ApiCall}
    (h : NoCollision sha (calls.flatMap ApiCall.hashed)) (p ks ls : List PyStr)
    (hk : RefOfAny calls (p, ks)) (hl : RefOfAny calls (p, ls)) : ks = ls := by
  obtain ⟨c, hc, seq, hseq, path, hpre, he⟩ := hk
  obtain ⟨c', hc', seq', hseq', path', hpre', he'⟩ := hl
  obtain ⟨rfl, rfl⟩ := Prod.mk.inj he
  obtain ⟨hp, rfl⟩ := Prod.mk.inj he'
  obtain ⟨fp, steps, -, hst, rfl⟩ := callSeq_ok hseq
  obtain ⟨fp', steps', -, hst', rfl⟩ := callSeq_ok hseq'
  cases path with
  | nil => cases path' <;> simp_all
  | cons s rest =>
    cases path' with
    | nil => simp at hp
    | cons s' rest' =>
      obtain ⟨rfl, hsub'⟩ := List.cons_prefix_cons.mp hpre
      obtain ⟨rfl, hsub⟩ := List.cons_prefix_cons.mp hpre'
      obtain ⟨hfp, hrest⟩ := List.cons.inj hp
      obtain rfl : fp = fp' := hfp
      rw [List.map_cons, List.map_cons, map_congr_of_map_eq ?_ hrest]
      intro x hx y hy hxy
      rw [stepKey, stepKey, hxy,
        roleText_of_fp h hc hc' hst hst' (hsub'.subset hx) (hsub.subset hy) hxy]

theorem mount_mountAll {calls history : List ApiCall} {c : ApiCall}
    (h : NoCollision sha (calls.flatMap ApiCall.hashed)) (hh : history ⊆ calls) (hc : c ∈ calls) :
    (mount (mountAll Tree.empty history) c).2 = threadId c := by
  have hG := refOfAny_functional h
  have hshared : Stamped (RefOfAny calls) (mountAll Tree.empty history) :=
    mountAll_stamped hG (stamped_empty _) fun d hd r hr => ⟨d, hh hd, hr⟩
  exact (mount_spec hG hshared fun r hr => ⟨c, hc, hr⟩).1

/-- One shared tree per session and a fresh tree per call stamp the same ids. -/
theorem shared_tree_eq_fresh_tree (history : List ApiCall) (c : ApiCall)
    (h : NoCollision sha ((history ++ [c]).flatMap ApiCall.hashed)) :
    (mount (mountAll Tree.empty history) c).2 = (mount Tree.empty c).2 ∧
      replaySession Tree.empty (history ++ [c]) = (history ++ [c]).map stampOnline := by
  have hfresh : ∀ d ∈ history ++ [c], (mount Tree.empty d).2 = threadId d := fun d hd =>
    mount_mountAll h (List.nil_subset _) hd
  have hc : c ∈ history ++ [c] := by simp
  refine ⟨?_, ?_⟩
  · rw [hfresh c hc, mount_mountAll h (List.subset_append_left _ _) hc]
  · rw [replaySession_eq (refOfAny_functional h) (stamped_empty _) fun d hd r hr => ⟨d, hd, hr⟩]
    exact List.map_congr_left fun d hd => (hfresh d hd).symm

def text (s : String) : Json := .str (py s)

lemma wf_text (s : String) : (text s).wf = true := rfl

def message (role : String) (content : Json) : Json :=
  .obj [(py "role", text role), (py "content", content)]

def firstFrame : ApiCall where
  system := text "S"
  messages := [message "user" (text "hi")]
  wf_system := wf_text "S"
  wf_messages := by decide

def afterReply : ApiCall where
  system := text "S"
  messages := [message "user" (text "hi"), message "assistant" (text "A1")]
  wf_system := wf_text "S"
  wf_messages := by decide

theorem shared_tree_eq_fresh_tree_two_calls :
    (mount (mountAll Tree.empty [firstFrame, afterReply]) firstFrame).2 =
        (mount Tree.empty firstFrame).2 ∧
      replaySession Tree.empty [firstFrame, afterReply, firstFrame] =
        [firstFrame, afterReply, firstFrame].map stampOnline :=
  shared_tree_eq_fresh_tree [firstFrame, afterReply] firstFrame (by decide +kernel)

end AgentTrajectory.MessageTree
