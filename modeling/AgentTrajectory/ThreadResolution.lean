import AgentTrajectory.PyValue
import AgentTrajectory.ThreadIdentity

/-! What `unique_descendant_thread` finds. The anchors of a tree are the first assistant
nodes of the calls mounted on it, so that the search below the last node of a first frame
meets the threads whose calls extend the frame. -/
namespace AgentTrajectory.MessageTree
open PyText PyDict PyJson PyValue

variable {calls : List ApiCall} {seq : List (Json × PyStr)} {t : Tree} {G : Ref → Prop} {c : ApiCall}

lemma mountLoop_valAt {node : Ref} (hn : (t.valAt node.1).isSome) (anchor : Option Ref)
    (seq : List (Json × PyStr)) (q : List PyStr) :
    (∀ d, t.valAt q = some d → (mountLoop t node anchor seq).1.valAt q = some d) ∧
      ∀ d, (mountLoop t node anchor seq).1.valAt q = some d →
        t.valAt q = some d ∨ d.isAnchor = false ∧ d.branchId = none := by
  induction seq generalizing t node anchor with
  | nil => exact ⟨fun d h => h, fun d h => .inl h⟩
  | cons s rest ih =>
    obtain ⟨role, fp⟩ := s
    have hstep := PrefixTree.valAt_ensureAt t node.1 q fp ⟨fp, role, false, none⟩ hn
    have hkeep : ∀ d, t.valAt q = some d →
        (t.ensureAt node.1 fp ⟨fp, role, false, none⟩).valAt q = some d := by
      intro d hd
      rw [hstep, hd]
      simp
    have hnew : ∀ d, (t.ensureAt node.1 fp ⟨fp, role, false, none⟩).valAt q = some d →
        t.valAt q = some d ∨ d.isAnchor = false ∧ d.branchId = none := by
      intro d hd
      rw [hstep] at hd
      split_ifs at hd
      · cases hv : t.valAt q with
        | some e => exact .inl (by simpa [hv] using hd)
        | none =>
          obtain rfl : _ = d := by simpa [hv] using hd
          exact .inr ⟨rfl, rfl⟩
      · exact .inl hd
    cases role with
    | str r =>
      have hchild : ((t.ensureAt node.1 fp ⟨fp, .str r, false, none⟩).valAt (node.1 ++ [fp])).isSome := by
        simp [PrefixTree.valAt_ensureAt t _ _ fp _ hn]
      obtain ⟨h1, h2⟩ := @ih _ (node.1 ++ [fp], node.2 ++ [r ++ py ":" ++ fp]) hchild
        (if anchor.isNone && r == py "assistant" then
          some (node.1 ++ [fp], node.2 ++ [r ++ py ":" ++ fp]) else anchor)
      refine ⟨fun d hd => h1 d (hkeep d hd), fun d hd => ?_⟩
      rcases h2 d hd with h | h
      · exact hnew d h
      · exact .inr h
    | _ => exact ⟨hkeep, hnew⟩

lemma mountLoop_path {node : Ref} (hn : (t.valAt node.1).isSome) (anchor : Option Ref)
    (hall : (seq.all fun s => (roleText s.1).isSome) = true)
    {path : List (Json × PyStr)} (hpre : path <+: seq) :
    ((mountLoop t node anchor seq).1.valAt (node.1 ++ path.map Prod.snd)).isSome := by
  induction seq generalizing t node anchor path with
  | nil =>
    obtain rfl := List.prefix_nil.mp hpre
    simpa [mountLoop] using hn
  | cons s rest ih =>
    cases path with
    | nil =>
      obtain ⟨d, hd⟩ := Option.isSome_iff_exists.mp hn
      have hkeep := (mountLoop_valAt hn anchor (s :: rest) node.1).1 d hd
      simp [hkeep]
    | cons s' path =>
      obtain ⟨rfl, hrest⟩ := List.cons_prefix_cons.mp hpre
      obtain ⟨role, fp⟩ := s'
      cases role with
      | str r =>
        have hchild :
            ((t.ensureAt node.1 fp ⟨fp, .str r, false, none⟩).valAt (node.1 ++ [fp])).isSome := by
          simp [PrefixTree.valAt_ensureAt t _ _ fp _ hn]
        have := @ih _ (node.1 ++ [fp], node.2 ++ [r ++ py ":" ++ fp]) hchild
          (if anchor.isNone && r == py "assistant" then
            some (node.1 ++ [fp], node.2 ++ [r ++ py ":" ++ fp]) else anchor)
          (by simpa [roleText] using hall) path hrest
        rw [List.map_cons, List.append_cons]
        exact this
      | _ => simp [roleText] at hall

def stampNode (anchor : Ref) (real : Bool) (d : Node) : Node :=
  { d with isAnchor := d.isAnchor || real
           branchId := d.branchId.or (branchId anchor.2).toOption }

lemma stamp_valAt {anchor : Ref} (ha : (t.valAt anchor.1).isSome) (real : Bool) (q : List PyStr) :
    (stamp t anchor real).1.valAt q =
      if q = anchor.1 then (t.valAt q).map (stampNode anchor real) else t.valAt q := by
  obtain ⟨d, hd⟩ := Option.isSome_iff_exists.mp ha
  have hmark : ∀ q, (if real then t.updateAt anchor.1 fun d => { d with isAnchor := true }
      else t).valAt q =
      if q = anchor.1 then some { d with isAnchor := d.isAnchor || real } else t.valAt q := by
    intro q
    cases real with
    | false =>
      simp only [Bool.false_eq_true, if_false, Bool.or_false]
      split_ifs with hq
      · rw [hq, hd]
      · rfl
    | true =>
      simp only [if_true, Bool.or_true, PrefixTree.valAt_updateAt, hd, Option.map_some]
  simp only [stamp]
  generalize (if real then t.updateAt anchor.1 fun d => { d with isAnchor := true } else t) = u at hmark
  have hu := hmark anchor.1
  rw [if_pos rfl] at hu
  cases hb : d.branchId with
  | some b =>
    simp only [hu, Option.bind_some, hb, hmark]
    split_ifs with hq
    · rw [hq, hd]
      simp [stampNode, hb]
    · rfl
  | none =>
    simp only [hu, Option.bind_some, hb]
    cases hid : branchId anchor.2 with
    | error e =>
      simp only [hmark]
      split_ifs with hq
      · rw [hq, hd]
        simp [stampNode, hb, hid, Except.toOption]
      · rfl
    | ok b =>
      simp only [PrefixTree.valAt_updateAt, hu, hmark]
      split_ifs with hq
      · rw [hq, hd]
        simp [stampNode, hb, hid, Except.toOption]
      · rfl

lemma stamp_distinct (ht : t.Distinct) (anchor : Ref) (real : Bool) :
    (stamp t anchor real).1.Distinct := by
  have hmark : (if real then t.updateAt anchor.1 fun d => { d with isAnchor := true }
      else t : Tree).Distinct := by
    split_ifs
    · exact ht.updateAt _ _
    · exact ht
  simp only [stamp]
  generalize (if real then t.updateAt anchor.1 fun d => { d with isAnchor := true } else t) = u at hmark
  cases (u.valAt anchor.1).bind Node.branchId with
  | some b => exact hmark
  | none =>
    cases branchId anchor.2 with
    | error e => exact hmark
    | ok b => exact hmark.updateAt _ _

lemma mountLoop_distinct (ht : t.Distinct) (node : Ref) (anchor : Option Ref)
    (seq : List (Json × PyStr)) : (mountLoop t node anchor seq).1.Distinct := by
  induction seq generalizing t node anchor with
  | nil => exact ht
  | cons s rest ih =>
    obtain ⟨role, fp⟩ := s
    cases role with
    | str r => exact ih (ht.ensureAt _ _ _) _ _
    | _ => exact ht.ensureAt _ _ _

def Steps (c : ApiCall) (seq : List (Json × PyStr)) : Prop :=
  callSeq c.system c.messages = .ok seq ∧ (seq.all fun s => (roleText s.1).isSome) = true

lemma mount_fst_cases (t : Tree) (c : ApiCall) : ((∀ seq, ¬ Steps c seq) ∧
        ((mount t c).1 = t ∨ ∃ seq, (mount t c).1 = (mountLoop t ([], []) none seq).1)) ∨
      ∃ seq, Steps c seq ∧ (mount t c).1 =
        (stamp (mountLoop t ([], []) none seq).1 (extend ([], []) ((toAnchor seq).getD seq))
          (toAnchor seq).isSome).1 := by
  cases hs : callSeq c.system c.messages with
  | error e => exact .inl ⟨fun seq h => by simp [Steps, hs] at h, .inl (by simp [mount, mountCall, hs])⟩
  | ok seq =>
    have hres := mountLoop_snd t ([], []) none seq
    by_cases hall : (seq.all fun s => (roleText s.1).isSome) = true
    · refine .inr ⟨seq, ⟨hs, hall⟩, ?_⟩
      rw [if_pos hall] at hres
      simp only [mount, mountCall, hs]
      generalize mountLoop t ([], []) none seq = out at hres
      obtain ⟨t', res⟩ := out
      simp only at hres
      subst hres
      cases ha : toAnchor seq <;> simp
    · refine .inl ⟨fun seq' h => ?_, .inr ⟨seq, ?_⟩⟩
      · obtain rfl := Except.ok.inj (hs.symm.trans h.1)
        exact hall h.2
      · rw [if_neg hall] at hres
        simp only [mount, mountCall, hs]
        generalize mountLoop t ([], []) none seq = out at hres
        obtain ⟨t', res⟩ := out
        simp only at hres
        subst hres
        rfl

def AnchorPath (c : ApiCall) (p : List PyStr) : Prop :=
  ∃ seq path, Steps c seq ∧ toAnchor seq = some path ∧ p = path.map Prod.snd

/-- The tree holds the paths of the calls, marks their anchors and no other node, and keeps
on a marked node the id of its key path. -/
structure Anchored (G : Ref → Prop) (calls : List ApiCall) (t : Tree) : Prop where
  distinct : t.Distinct
  paths : ∀ c ∈ calls, ∀ seq, Steps c seq → (t.valAt (seq.map Prod.snd)).isSome
  marks : ∀ p, (∃ d, t.valAt p = some d ∧ d.isAnchor = true) ↔ ∃ c ∈ calls, AnchorPath c p
  ids : ∀ p d ks b, t.valAt p = some d → d.isAnchor = true → G (p, ks) → branchId ks = .ok b →
    d.branchId = some b

lemma anchored_empty (G : Ref → Prop) : Anchored G [] Tree.empty := by
  have hval : ∀ p d, Tree.empty.valAt p = some d → d.isAnchor = false := by
    intro p d hp
    cases p with
    | nil => exact (Option.some.inj hp) ▸ rfl
    | cons k ks => simp [Tree.empty, PrefixTree.valAt_leaf_cons] at hp
  refine ⟨PrefixTree.distinct_leaf _, by simp, fun p => ?_, fun p d ks b hp ha => ?_⟩
  · refine iff_of_false ?_ (by simp)
    rintro ⟨d, hp, ha⟩
    rw [hval p d hp] at ha
    cases ha
  · rw [hval p d hp] at ha
    cases ha

lemma Anchored.mountLoop (h : Anchored G calls t)
    (seq : List (Json × PyStr)) : Anchored G calls (mountLoop t ([], []) none seq).1 := by
  have hval := mountLoop_valAt (show (t.valAt (([], []) : Ref).1).isSome by simp) none seq
  refine ⟨mountLoop_distinct h.distinct _ _ _, fun c hc s hs => ?_, fun p => ?_,
    fun p d ks b hp ha => ?_⟩
  · obtain ⟨d, hd⟩ := Option.isSome_iff_exists.mp (h.paths c hc s hs)
    rw [(hval _).1 d hd]
    rfl
  · rw [← h.marks]
    constructor
    · rintro ⟨d, hp, ha⟩
      rcases (hval p).2 d hp with hd | ⟨hfalse, -⟩
      · exact ⟨d, hd, ha⟩
      · rw [hfalse] at ha
        cases ha
    · rintro ⟨d, hp, ha⟩
      exact ⟨d, (hval p).1 d hp, ha⟩
  · rcases (hval p).2 d hp with hd | ⟨hfalse, -⟩
    · exact h.ids p d ks b hd ha
    · rw [hfalse] at ha
      cases ha

lemma Anchored.cons_of_not_steps
    (h : Anchored G calls t) (hc : ∀ seq, ¬ Steps c seq) : Anchored G (c :: calls) t := by
  refine ⟨h.distinct, fun d hd seq hs => ?_, fun p => ?_, h.ids⟩
  · rcases List.mem_cons.mp hd with rfl | hd
    · exact absurd hs (hc seq)
    · exact h.paths d hd seq hs
  · rw [h.marks]
    constructor
    · rintro ⟨d, hd, hp⟩
      exact ⟨d, List.mem_cons_of_mem _ hd, hp⟩
    · rintro ⟨d, hd, hp⟩
      rcases List.mem_cons.mp hd with rfl | hd
      · obtain ⟨seq, path, hs, -⟩ := hp
        exact absurd hs (hc seq)
      · exact ⟨d, hd, hp⟩

lemma anchorPath_iff (hs : Steps c seq) (p : List PyStr) :
    AnchorPath c p ↔ (toAnchor seq).isSome = true ∧ p = ((toAnchor seq).getD seq).map Prod.snd := by
  constructor
  · rintro ⟨seq', path, hs', ha, rfl⟩
    obtain rfl := Except.ok.inj (hs.1.symm.trans hs'.1)
    simp [ha]
  · rintro ⟨hsome, rfl⟩
    obtain ⟨path, ha⟩ := Option.isSome_iff_exists.mp hsome
    exact ⟨seq, path, hs, ha, by simp [ha]⟩

lemma Anchored.stamp (hG : ∀ p ks ls, G (p, ks) → G (p, ls) → ks = ls)
    (h : Anchored G calls t) (hst : Stamped G t) (hc : ∀ r, RefOf c r → G r) (hs : Steps c seq)
    (hpath : ∀ path, path <+: seq → (t.valAt (path.map Prod.snd)).isSome) :
    Anchored G (c :: calls) (stamp t (extend ([], []) ((toAnchor seq).getD seq))
      (toAnchor seq).isSome).1 := by
  set path := (toAnchor seq).getD seq with hdef
  have hpre : path <+: seq := getD_toAnchor_isPrefix seq
  have hanchor : (extend ([], []) path) = (path.map Prod.snd, path.map stepKey) := by simp [extend]
  have hGa : G (path.map Prod.snd, path.map stepKey) := hc _ ⟨seq, hs.1, path, hpre, rfl⟩
  rw [hanchor]
  have hval := @stamp_valAt t (path.map Prod.snd, path.map stepKey) (hpath path hpre)
    (toAnchor seq).isSome
  simp only at hval
  refine ⟨stamp_distinct h.distinct _ _, fun d hd s hsd => ?_, fun p => ?_,
    fun p d ks b hp ha hG' hb => ?_⟩
  · have hsome : (t.valAt (s.map Prod.snd)).isSome := by
      rcases List.mem_cons.mp hd with rfl | hd
      · obtain rfl := Except.ok.inj (hs.1.symm.trans hsd.1)
        exact hpath seq List.prefix_rfl
      · exact h.paths d hd s hsd
    rw [hval]
    split_ifs
    · simpa using hsome
    · exact hsome
  · have hmarks := h.marks p
    simp only [List.mem_cons, exists_eq_or_imp, ← hmarks, anchorPath_iff hs, hval, ← hdef]
    obtain ⟨e, he⟩ := Option.isSome_iff_exists.mp (hpath path hpre)
    by_cases hp : p = path.map Prod.snd
    · simp only [hp, if_true, he, Option.map_some, Option.some.injEq, exists_eq_left', stampNode,
        Bool.or_eq_true, and_true]
      exact or_comm
    · simp only [hp, if_false, and_false, false_or]
  · rw [hval] at hp
    split_ifs at hp with hpp
    · obtain ⟨e, he, rfl⟩ := Option.map_eq_some_iff.mp hp
      subst hpp
      obtain rfl := hG _ _ _ hG' hGa
      simp only [stampNode, hb, Except.toOption]
      cases heb : e.branchId with
      | none => rfl
      | some b' =>
        obtain ⟨ls, hls, hid⟩ := hst _ e b' he heb
        obtain rfl := hG _ _ _ hls hGa
        rw [hb] at hid
        rw [Except.ok.inj hid]
        rfl
    · exact h.ids p d ks b hp ha hG' hb

lemma Anchored.mount (hG : ∀ p ks ls, G (p, ks) → G (p, ls) → ks = ls)
    (h : Anchored G calls t) (hst : Stamped G t)
    (hc : ∀ r, RefOf c r → G r) : Anchored G (c :: calls) (mount t c).1 := by
  have hroot : (t.valAt (([], []) : Ref).1).isSome := by simp
  rcases mount_fst_cases t c with ⟨hno, he | ⟨seq, he⟩⟩ | ⟨seq, hs, he⟩
  · rw [he]
    exact h.cons_of_not_steps hno
  · rw [he]
    exact (h.mountLoop seq).cons_of_not_steps hno
  · rw [he]
    refine (h.mountLoop seq).stamp hG (mountLoop_stamped hst hroot none seq) hc hs fun path hpre => ?_
    simpa using mountLoop_path hroot none hs.2 hpre

lemma anchored_mountAll (hG : ∀ p ks ls, G (p, ks) → G (p, ls) → ks = ls)
    {done calls : List ApiCall} (h : Anchored G done t) (hst : Stamped G t)
    (hc : ∀ c ∈ calls, ∀ r, RefOf c r → G r) : Anchored G (calls.reverse ++ done) (mountAll t calls) := by
  induction calls generalizing done t with
  | nil => exact h
  | cons c cs ih =>
    have hc' := hc c List.mem_cons_self
    rw [List.reverse_cons, List.append_assoc]
    exact ih (h.mount hG hst hc') (mount_spec hG hst hc').2 fun d hd => hc d (List.mem_cons_of_mem _ hd)

lemma walkToAnchor_eq (h : toAnchor seq = none) :
    walkToAnchor t seq = t.get? (seq.map Prod.snd) := by
  induction seq generalizing t with
  | nil => rfl
  | cons s rest ih =>
    rw [toAnchor] at h
    split_ifs at h with hs
    simp only [walkToAnchor, List.map_cons, PrefixTree.get?]
    cases get? t.children s.2 with
    | none => rfl
    | some u =>
      simp only [if_neg hs]
      exact ih (by simpa using h)

lemma threadId_anchored_iff {b : PyStr} :
    threadId c = .ok (b, false) ↔ ∃ seq path, Steps c seq ∧ toAnchor seq = some path ∧
      branchId (path.map stepKey) = .ok b := by
  constructor
  · intro h
    obtain ⟨seq, hseq, h⟩ := bind_eq_ok.mp h
    split_ifs at h with hall
    cases ha : toAnchor seq with
    | none =>
      simp only [ha, map_eq_ok] at h
      obtain ⟨b', -, he⟩ := h
      simp at he
    | some path =>
      simp only [ha, map_eq_ok] at h
      obtain ⟨b', hb, he⟩ := h
      obtain ⟨rfl, -⟩ := Prod.mk.inj he
      exact ⟨seq, path, ⟨hseq, hall⟩, ha, hb⟩
  · rintro ⟨seq, path, ⟨hseq, hall⟩, ha, hb⟩
    refine bind_eq_ok.mpr ⟨seq, hseq, ?_⟩
    rw [if_pos hall]
    simp only [ha, hb]
    rfl

lemma threadId_provisional {b : PyStr} (h : threadId c = .ok (b, true)) :
    ∃ seq, Steps c seq ∧ toAnchor seq = none := by
  obtain ⟨seq, hseq, h⟩ := bind_eq_ok.mp h
  split_ifs at h with hall
  cases ha : toAnchor seq with
  | none => exact ⟨seq, ⟨hseq, hall⟩, ha⟩
  | some path =>
    simp only [ha, map_eq_ok] at h
    obtain ⟨b', -, he⟩ := h
    simp at he

lemma branchId_ne_nil {ks : List PyStr} {b : PyStr} (h : branchId ks = .ok b) : b.isEmpty = false := by
  obtain ⟨d, -, h⟩ := bind_eq_ok.mp h
  obtain rfl := Except.ok.inj h
  rfl

def idsBelow (n : Tree) : List PyStr :=
  n.values.filterMap fun d => if d.isAnchor then d.branchId.filter fun b => !b.isEmpty else none

lemma mem_idsBelow (hG : ∀ p ks ls, G (p, ks) → G (p, ls) → ks = ls)
    {t n : Tree} (h : Anchored G calls t) (hst : Stamped G t)
    (hc : ∀ c ∈ calls, ∀ r, RefOf c r → G r) {p : List PyStr} (hn : t.get? p = some n) (b : PyStr) :
    b ∈ idsBelow n ↔ ∃ c ∈ calls, threadId c = .ok (b, false) ∧
      ∃ q, AnchorPath c q ∧ p <+: q := by
  have href : ∀ c ∈ calls, ∀ seq path, Steps c seq → toAnchor seq = some path →
      G (path.map Prod.snd, path.map stepKey) := fun c hcm seq path hs ha =>
    hc c hcm _ ⟨seq, hs.1, path, toAnchor_isPrefix ha, rfl⟩
  simp only [idsBelow, List.mem_filterMap, PrefixTree.mem_values_iff (h.distinct.get? hn)]
  constructor
  · rintro ⟨d, ⟨q, hq⟩, hb⟩
    split_ifs at hb with ha
    obtain ⟨hid, -⟩ := Option.filter_eq_some_iff.mp hb
    rw [← PrefixTree.valAt_append hn] at hq
    obtain ⟨c, hcm, hpath⟩ := (h.marks _).mp ⟨d, hq, ha⟩
    obtain ⟨ks, hks, hbr⟩ := hst _ d b hq hid
    refine ⟨c, hcm, ?_, p ++ q, hpath, List.prefix_append _ _⟩
    obtain ⟨seq, path, hs, hanchor, hp⟩ := hpath
    rw [hp] at hks
    obtain rfl := hG _ _ _ hks (href c hcm seq path hs hanchor)
    exact threadId_anchored_iff.mpr ⟨seq, path, hs, hanchor, hbr⟩
  · rintro ⟨c, hcm, hid, q, hpath, ⟨q', rfl⟩⟩
    obtain ⟨d, hd, ha⟩ := (h.marks _).mpr ⟨c, hcm, hpath⟩
    obtain ⟨seq, path, hs, hanchor, hbr⟩ := threadId_anchored_iff.mp hid
    obtain ⟨-, hp⟩ := (anchorPath_iff hs _).mp hpath
    rw [hanchor, Option.getD_some] at hp
    have hbid := h.ids _ d _ b hd ha (hp ▸ href c hcm seq path hs hanchor) hbr
    refine ⟨d, ⟨q', by rw [← PrefixTree.valAt_append hn, hd]⟩, ?_⟩
    rw [if_pos ha, hbid, Option.filter_some, branchId_ne_nil hbr]
    rfl

/-- The system prompts agree, and what comes before the first assistant message of the second
call starts with the messages of the first. -/
def Extends (c d : ApiCall) : Prop :=
  (stripBillingBlocks c.system).Same (stripBillingBlocks d.system) ∧
    ∃ start, start <+: d.messages.takeWhile (fun v => !isAssistant v) ∧
      List.Forall₂ SameMessage c.messages start

lemma prefix_upToAssistant_iff {start vs : List Json} (h : start.any isAssistant = false) :
    start <+: upToAssistant vs ↔ start <+: vs.takeWhile fun v => !isAssistant v := by
  induction vs generalizing start with
  | nil => rfl
  | cons v vs ih =>
    cases start with
    | nil => simp
    | cons u start =>
      simp only [List.any_cons, Bool.or_eq_false_iff] at h
      rw [upToAssistant, List.takeWhile_cons]
      by_cases hv : isAssistant v = true
      · simp only [hv, if_true, Bool.not_true, Bool.false_eq_true, if_false, List.cons_prefix_cons,
          List.prefix_nil]
        refine iff_of_false ?_ (by simp)
        rintro ⟨rfl, -⟩
        rw [h.1] at hv
        cases hv
      · simp only [hv, Bool.false_eq_true, if_false, Bool.not_false, if_true,
          List.cons_prefix_cons, ih h.2]

lemma fps_prefix_iff {c d : ApiCall} (hn : NoCollision sha (c.hashed ++ d.hashed)) {vs ws : List Json}
    {p q : List (Json × PyStr)} (hvs : vs ⊆ c.messages) (hws : ws ⊆ d.messages)
    (hp : messageSteps vs = .ok p) (hq : messageSteps ws = .ok q) :
    p.map Prod.snd <+: q.map Prod.snd ↔ ∃ start, start <+: ws ∧ List.Forall₂ SameMessage vs start := by
  induction vs generalizing ws p q with
  | nil =>
    obtain rfl : [] = p := by simpa [messageSteps] using hp
    exact iff_of_true (by simp) ⟨[], by simp, .nil⟩
  | cons v vs ih =>
    obtain ⟨s, p, hv, hp', rfl⟩ := messageSteps_cons hp
    cases ws with
    | nil =>
      obtain rfl : [] = q := by simpa [messageSteps] using hq
      refine iff_of_false (by simp) ?_
      rintro ⟨start, hpre, hall⟩
      obtain rfl := List.prefix_nil.mp hpre
      cases hall
    | cons w ws =>
      obtain ⟨t, q, hw, hq', rfl⟩ := messageSteps_cons hq
      rw [List.map_cons, List.map_cons, List.cons_prefix_cons,
        fp_eq_iff hn (hvs (by simp)) (hws (by simp)) hv hw,
        ih (fun x hx => hvs (by simp [hx])) (fun x hx => hws (by simp [hx])) hp' hq']
      constructor
      · rintro ⟨hvw, start, hpre, hall⟩
        exact ⟨w :: start, (List.prefix_cons_inj w).mpr hpre, .cons hvw hall⟩
      · rintro ⟨start, hpre, hall⟩
        cases hall with
        | cons hvw hall =>
          obtain ⟨rfl, hrest⟩ := List.cons_prefix_cons.mp hpre
          exact ⟨hvw, _, hrest, hall⟩

lemma systemFp_ok {system : Json} {fp : PyStr} (h : systemFp system = .ok fp) :
    ∃ digest, sha (stripBillingBlocks system).dumpsSorted = .ok digest ∧ fp = py "sys:" ++ digest := by
  obtain ⟨digest, hd, h⟩ := bind_eq_ok.mp h
  exact ⟨digest, hd, (Except.ok.inj h).symm⟩

lemma path_prefix_iff {c d : ApiCall} (hn : NoCollision sha (c.hashed ++ d.hashed))
    {seq seq' path : List (Json × PyStr)} (hc : callSeq c.system c.messages = .ok seq)
    (hd : callSeq d.system d.messages = .ok seq') (hnone : toAnchor seq = none)
    (hpath : toAnchor seq' = some path) : seq.map Prod.snd <+: path.map Prod.snd ↔ Extends c d := by
  obtain ⟨fp, steps, hfp, hsteps, rfl⟩ := callSeq_ok hc
  obtain ⟨fp', steps', hfp', hsteps', rfl⟩ := callSeq_ok hd
  obtain ⟨h, hh, rfl⟩ := systemFp_ok hfp
  obtain ⟨h', hh', rfl⟩ := systemFp_ok hfp'
  rw [toAnchor_cons_system rfl, Option.map_eq_none_iff] at hnone
  rw [toAnchor_cons_system rfl, Option.map_eq_some_iff] at hpath
  obtain ⟨rest, hrest, rfl⟩ := hpath
  obtain ⟨hany, -⟩ := toAnchor_messageSteps hsteps
  obtain ⟨-, hup⟩ := toAnchor_messageSteps hsteps'
  rw [hrest, Option.getD_some] at hup
  have hplain : c.messages.any isAssistant = false := by rw [← hany, hnone]; rfl
  rw [List.map_cons, List.map_cons, List.cons_prefix_cons, List.append_cancel_left_eq,
    systemDigest_eq_iff hn hh hh', Extends,
    fps_prefix_iff hn (List.Subset.refl _) (upToAssistant_isPrefix _).subset hsteps hup]
  refine and_congr_right fun _ => exists_congr fun start => ?_
  rw [and_comm, and_comm (b := List.Forall₂ SameMessage c.messages start)]
  refine and_congr_right fun hall => prefix_upToAssistant_iff ?_
  rw [← any_isAssistant_eq hall, hplain]

lemma NoCollision.subset {f : PyStr → Except PyError PyStr} {xs ys : List PyStr}
    (h : NoCollision f ys) (hsub : xs ⊆ ys) : NoCollision f xs :=
  fun s hs t ht => h s (hsub hs) t (hsub ht)

lemma hashed_subset {c d : ApiCall} (hc : c ∈ calls) (hd : d ∈ calls) :
    c.hashed ++ d.hashed ⊆ calls.flatMap ApiCall.hashed :=
  List.append_subset.mpr ⟨fun _ hs => List.mem_flatMap.mpr ⟨c, hc, hs⟩,
    fun _ hs => List.mem_flatMap.mpr ⟨d, hd, hs⟩⟩

def single (l : List PyStr) : Option PyStr :=
  match l.dedup with
  | [b] => some b
  | _ => none

lemma single_eq_some_iff {l : List PyStr} {b : PyStr} : single l = some b ↔ ∀ u, u ∈ l ↔ u = b := by
  rw [single]
  have hmem : ∀ u, u ∈ l ↔ u ∈ l.dedup := fun u => List.mem_dedup.symm
  have hnodup := List.nodup_dedup l
  simp only [hmem]
  generalize l.dedup = ds at hnodup
  match ds with
  | [] =>
    refine iff_of_false (by simp) fun h => ?_
    exact absurd ((h b).mpr rfl) (by simp)
  | [a] =>
    simp only [Option.some.injEq, List.mem_singleton]
    exact ⟨fun h u => by rw [h], fun h => (h a).mp rfl⟩
  | a :: a' :: rest =>
    refine iff_of_false (by simp) fun h => ?_
    have ha := (h a).mp (by simp)
    have ha' := (h a').mp (by simp)
    simp [ha, ha'] at hnodup

lemma uniqueDescendantThread_eq {t n : Tree} {system : Json} {messages : List Json}
    (hseq : callSeq system messages = .ok seq) (hnone : toAnchor seq = none)
    (hget : t.get? (seq.map Prod.snd) = some n) :
    uniqueDescendantThread t system messages = .ok (single (idsBelow n)) := by
  refine bind_eq_ok.mpr ⟨seq, hseq, ?_⟩
  rw [walkToAnchor_eq hnone, hget, single]
  change (match (idsBelow n).dedup with | [b] => Except.ok (some b) | _ => .ok none) = _
  split <;> rfl

lemma uniqueDescendantThread_spec
    (hn : NoCollision sha (calls.flatMap ApiCall.hashed)) (hc : c ∈ calls) {i : PyStr}
    (hi : threadId c = .ok (i, true)) :
    ∃ r, uniqueDescendantThread (mountAll Tree.empty calls) c.system c.messages = .ok r ∧
      ∀ b, r = some b ↔ ∀ u, (∃ d ∈ calls, threadId d = .ok (u, false) ∧ Extends c d) ↔ u = b := by
  have hG := refOfAny_functional hn
  have href : ∀ d ∈ calls, ∀ r, RefOf d r → RefOfAny calls r := fun d hd r hr => ⟨d, hd, hr⟩
  have hstamped := mountAll_stamped hG (stamped_empty _) href
  have hanchored := anchored_mountAll hG (anchored_empty _) (stamped_empty _) href
  have hmem : ∀ d, d ∈ calls.reverse ++ [] ↔ d ∈ calls := by simp
  obtain ⟨seq, hs, hnone⟩ := threadId_provisional hi
  obtain ⟨v, hv⟩ := Option.isSome_iff_exists.mp (hanchored.paths c ((hmem c).mpr hc) seq hs)
  obtain ⟨n, hget, -⟩ := Option.map_eq_some_iff.mp hv
  have hids : ∀ u, u ∈ idsBelow n ↔ ∃ d ∈ calls, threadId d = .ok (u, false) ∧ Extends c d := by
    intro u
    rw [mem_idsBelow hG hanchored hstamped (fun d hd => href d ((hmem d).mp hd)) hget]
    constructor
    · rintro ⟨d, hd, hid, q, hq, hpre⟩
      have hd' := (hmem d).mp hd
      obtain ⟨seq', path, hs', ha, rfl⟩ := hq
      refine ⟨d, hd', hid, (path_prefix_iff ?_ hs.1 hs'.1 hnone ha).mp hpre⟩
      exact hn.subset (hashed_subset hc hd')
    · rintro ⟨d, hd, hid, hext⟩
      obtain ⟨seq', path, hs', ha, -⟩ := threadId_anchored_iff.mp hid
      refine ⟨d, (hmem d).mpr hd, hid, _, ⟨seq', path, hs', ha, rfl⟩, ?_⟩
      exact (path_prefix_iff (hn.subset (hashed_subset hc hd)) hs.1 hs'.1 hnone ha).mpr hext
  refine ⟨_, uniqueDescendantThread_eq hs.1 hnone hget, fun b => ?_⟩
  simp only [single_eq_some_iff, hids]

lemma mem_zip_replaySession
    (hn : NoCollision sha (calls.flatMap ApiCall.hashed)) {q : ApiCall × Except PyError (PyStr × Bool)} :
    q ∈ calls.zip (replaySession Tree.empty calls) ↔ q.1 ∈ calls ∧ q.2 = threadId q.1 := by
  have hzip : calls.zip (calls.map threadId) = calls.map fun d => (d, threadId d) := by
    simpa using List.zip_map' (f := id) (g := threadId) (l := calls)
  rw [replaySession_eq (refOfAny_functional hn) (stamped_empty _) fun d hd r hr => ⟨d, hd, hr⟩, hzip,
    List.mem_map]
  constructor
  · rintro ⟨d, hd, rfl⟩
    exact ⟨hd, rfl⟩
  · rintro ⟨hd, he⟩
    exact ⟨q.1, hd, Prod.ext rfl he.symm⟩

/-- A first frame among the mounted calls resolves to a thread exactly when that is the only
thread of the mounted calls that extend it, whatever the order of mounting. -/
theorem first_frame_resolves_iff (calls : List ApiCall)
    (hn : NoCollision sha (calls.flatMap ApiCall.hashed)) (c : ApiCall) (i : PyStr)
    (hc : (c, .ok (i, true)) ∈ calls.zip (replaySession Tree.empty calls)) :
    ∃ r, uniqueDescendantThread (mountAll Tree.empty calls) c.system c.messages = .ok r ∧
      (∀ t, r = some t ↔ ∀ u, (∃ q ∈ calls.zip (replaySession Tree.empty calls),
        q.2 = .ok (u, false) ∧ Extends c q.1) ↔ u = t) ∧
      ∀ order, order.Perm calls →
        uniqueDescendantThread (mountAll Tree.empty order) c.system c.messages = .ok r := by
  obtain ⟨hmem, hi⟩ := (mem_zip_replaySession hn).mp hc
  obtain ⟨r, hr, hiff⟩ := uniqueDescendantThread_spec hn hmem hi.symm
  refine ⟨r, hr, fun t => ?_, fun order horder => ?_⟩
  · rw [hiff]
    refine forall_congr' fun u => iff_congr ?_ Iff.rfl
    constructor
    · rintro ⟨d, hd, hid, hext⟩
      exact ⟨(d, threadId d), (mem_zip_replaySession hn).mpr ⟨hd, rfl⟩, hid, hext⟩
    · rintro ⟨q, hq, hid, hext⟩
      obtain ⟨hd, he⟩ := (mem_zip_replaySession hn).mp hq
      exact ⟨q.1, hd, he ▸ hid, hext⟩
  · have hn' : NoCollision sha (order.flatMap ApiCall.hashed) :=
      hn.subset (horder.flatMap_right ApiCall.hashed).subset
    obtain ⟨r', hr', hiff'⟩ := uniqueDescendantThread_spec hn' (horder.mem_iff.mpr hmem) hi.symm
    have heq : r' = r := by
      refine Option.ext fun b => ?_
      rw [hiff, hiff']
      simp only [horder.mem_iff]
    rw [hr', heq]

theorem first_frame_resolves_two_orders :
    ∃ r, uniqueDescendantThread (mountAll Tree.empty [firstFrame, afterReply]) firstFrame.system
        firstFrame.messages = .ok r ∧
      uniqueDescendantThread (mountAll Tree.empty [afterReply, firstFrame]) firstFrame.system
        firstFrame.messages = .ok r := by
  obtain ⟨⟨i, _⟩, hp, rfl⟩ := ok_of_toOption
    (show ∃ p ∈ (mount Tree.empty firstFrame).2.toOption, p.2 = true by decide +kernel)
  have hc : (firstFrame, .ok (i, true)) ∈
      [firstFrame, afterReply].zip (replaySession Tree.empty [firstFrame, afterReply]) := by
    rw [← hp]
    exact List.mem_cons_self
  obtain ⟨r, hr, -, horder⟩ :=
    first_frame_resolves_iff [firstFrame, afterReply] (by decide +kernel) firstFrame i hc
  exact ⟨r, hr, horder [afterReply, firstFrame] (.swap ..)⟩

end AgentTrajectory.MessageTree
