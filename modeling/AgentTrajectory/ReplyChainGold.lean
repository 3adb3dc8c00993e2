import AgentTrajectory.TaskStitch
import AgentTrajectory.DictUnionFind
import AgentTrajectory.UnionOrder

/-! Gold components from reply edges: messages that replies connect get one number. -/
namespace AgentTrajectory.ReplyChainGold
open PyText PyDict TaskStitch DictUnionFind UnionOrder

structure ReplyEdge where
  childMsgId : PyStr
  parentMsgId : PyStr
  childRole : Role
  parentRole : Role
  childTs : ℤ
  childText : PyStr
  parentText : PyStr
  deriving DecidableEq

def ReplyEdge.ends (ed : ReplyEdge) : PyStr × PyStr := (ed.childMsgId, ed.parentMsgId)

/-- `extract_edges`: the replies whose parent is in the event set. -/
def extractEdges (env : Env) (events : List Event) : List ReplyEdge :=
  let byId := eventByMsg events
  events.filterMap fun e =>
    if e.parentId = [] ∨ e.msgId = [] then none
    else (get? byId e.parentId).map fun parent =>
      { childMsgId := e.msgId
        parentMsgId := e.parentId
        childRole := e.role
        parentRole := parent.role
        childTs := e.ts
        childText := (strip (stripFeishu env e.text)).take 500
        parentText := (strip (stripFeishu env parent.text)).take 500 }

/-- The ends of the edges, child before parent. -/
def messages (edges : List ReplyEdge) :
    List PyStr := edges.flatMap fun ed => [ed.childMsgId, ed.parentMsgId]

def goldComponents (edges : List ReplyEdge) : Option (Dict PyStr ℕ) := do
  let dsu ← (edges.map ReplyEdge.ends).foldlM union []
  let found ← findAll dsu (messages edges)
  let roots := found.1.dedup.insertionSort (· ≤ ·)
  let rootToCid := ofPairs roots.zipIdx
  let again ← findAll found.2 (messages edges)
  let cids ← again.1.mapM (get? rootToCid)
  return ofPairs ((messages edges).zip cids)

inductive DsuOp where
  | find (x : PyStr)
  | union (a b : PyStr)
  deriving DecidableEq

def DsuOp.run (p : Dict PyStr PyStr) : DsuOp → Option (Dict PyStr PyStr)
  | .find x => (DictUnionFind.find p x).map Prod.snd
  | .union a b => DictUnionFind.union p (a, b)

/-- The unions among the operations. -/
def unions (ops : List DsuOp) : List (PyStr × PyStr) :=
  ops.filterMap fun op => match op with
    | .find _ => none
    | .union a b => some (a, b)

/-- The representative that `find` returns. -/
def representative (p : Dict PyStr PyStr) (x : PyStr) : Option PyStr := (find p x).map Prod.fst

lemma run_represents {p : Dict PyStr PyStr} {r : PyStr → PyStr} (h : Represents p r) (op : DsuOp) :
    ∃ q, op.run p = some q ∧ Represents q ((unions [op]).foldl Forest.join r) := by
  cases op with
  | find x =>
    obtain ⟨q, hfind, hq, -⟩ := h.find_spec x
    exact ⟨q, by rw [DsuOp.run, hfind]; rfl, hq⟩
  | union a b => exact h.union_spec (a, b)

lemma foldlM_run {p : Dict PyStr PyStr} {r : PyStr → PyStr}
    (h : Represents p r) (ops : List DsuOp) :
    ∃ q, ops.foldlM DsuOp.run p = some q ∧ Represents q ((unions ops).foldl Forest.join r) := by
  induction ops generalizing p r with
  | nil => exact ⟨p, rfl, h⟩
  | cons op ops ih =>
    obtain ⟨q, hrun, hq⟩ := run_represents h op
    obtain ⟨q', hfold, hq'⟩ := ih hq
    have hunions : unions (op :: ops) = unions [op] ++ unions ops := by
      rw [unions, unions, unions, ← List.filterMap_append]
      rfl
    refine ⟨q', by rw [List.foldlM_cons, hrun]; exact hfold, ?_⟩
    rw [hunions, List.foldl_append]
    exact hq'

lemma representative_eq {p : Dict PyStr PyStr} {r : PyStr → PyStr}
    (h : Represents p r) (x : PyStr) :
    representative p x = some (r x) := by
  obtain ⟨q, hfind, -⟩ := h.find_spec x
  rw [representative, hfind]
  rfl

/-- After any operations `find` ends and changes no representative, and two keys have one
representative exactly when the unions connect them. -/
theorem find_eq_iff_connected (ops : List DsuOp) : ∃ p, ops.foldlM DsuOp.run [] = some p ∧
      (∀ x, ∃ root q, find p x = some (root, q) ∧ ∀ y, representative q y = representative p y) ∧
        ∀ x y, ∃ rx q ry q', find p x = some (rx, q) ∧ find q y = some (ry, q') ∧
          (rx = ry ↔ Connected (unions ops) x y) := by
  obtain ⟨p, hrun, hp⟩ := foldlM_run represents_nil ops
  refine ⟨p, hrun, fun x => ?_, fun x y => ?_⟩
  · obtain ⟨q, hfind, hq, -⟩ := hp.find_spec x
    refine ⟨_, q, hfind, fun y => ?_⟩
    rw [representative_eq hq, representative_eq hp]
  · obtain ⟨q, hfind, hq, -⟩ := hp.find_spec x
    obtain ⟨q', hfind', -⟩ := hq.find_spec y
    exact ⟨_, q, _, q', hfind, hfind', rep_eq_iff (unions ops) x y⟩

lemma get?_zipIdx {α : Type*} [DecidableEq α] [LinearOrder α] {l : List α}
    (hl : l.Pairwise (· < ·)) (k : ℕ) {x : α}
    (hx : x ∈ l) : get? (l.zipIdx k) x = some (k + (l.filter (· < x)).length) := by
  induction l generalizing k with
  | nil => simp at hx
  | cons a l ih =>
    obtain ⟨ha, hl⟩ := List.pairwise_cons.mp hl
    rw [List.zipIdx_cons, get?_cons]
    by_cases hax : a = x
    · subst hax
      have hnone : l.filter (· < a) = [] :=
        List.filter_eq_nil_iff.mpr fun b hb => by simpa using (ha b hb).le
      simp [hnone]
    · have hx : x ∈ l := (List.mem_cons.mp hx).resolve_left (Ne.symm hax)
      rw [if_neg hax, ih hl (k + 1) hx,
        List.filter_cons_of_pos (by simpa using ha x hx), List.length_cons]
      congr 1
      omega

lemma length_filter_eq_ncard {α : Type*} {l : List α} (hl : l.Nodup)
    (p : α → Prop) [DecidablePred p] :
    (l.filter p).length = {x | x ∈ l ∧ p x}.ncard := by
  classical
  rw [← List.toFinset_card_of_nodup (hl.filter _), ← Set.ncard_coe_finset]
  congr 1
  ext x
  simp

lemma get?_ofPairs_zipIdx {α : Type*} [DecidableEq α] [LinearOrder α] {l : List α}
    (hl : l.Pairwise (· < ·)) {x : α}
    (hx : x ∈ l) : get? (ofPairs l.zipIdx) x = some {y | y ∈ l ∧ y < x}.ncard := by
  have hkeys : keys l.zipIdx = l := by simp [keys]
  have hnodup : l.Nodup := hl.imp fun h => h.ne
  rw [ofPairs_of_nodup (hkeys.symm ▸ hnodup), get?_zipIdx hl 0 hx, Nat.zero_add,
    length_filter_eq_ncard hnodup]

/-- The edges as pairs. -/
def pairs (edges : List ReplyEdge) : List (PyStr × PyStr) := edges.map ReplyEdge.ends

def heads (edges : List ReplyEdge) :
    Set PyStr := {h | ∃ m ∈ messages edges, rep (pairs edges) m = h}

noncomputable def number (edges : List ReplyEdge) (m : PyStr) : ℕ :=
  {h ∈ heads edges | h < rep (pairs edges) m}.ncard

lemma rootToCid_spec {edges : List ReplyEdge} {m : PyStr} (hm : m ∈ messages edges) :
    get? (ofPairs (((messages edges).map (rep (pairs edges))).dedup.insertionSort (· ≤ ·)).zipIdx)
      (rep (pairs edges) m) = some (number edges m) := by
  have hperm := List.perm_insertionSort (· ≤ ·) ((messages edges).map (rep (pairs edges))).dedup
  have hnodup := hperm.nodup_iff.mpr (List.nodup_dedup _)
  have hsorted :
    (((messages edges).map (rep (pairs edges))).dedup.insertionSort (· ≤ ·)).Pairwise (· < ·) :=
    (List.pairwise_insertionSort (· ≤ ·) _).and hnodup |>.imp fun h => lt_of_le_of_ne h.1 h.2
  have hmem : rep (pairs edges) m ∈
    ((messages edges).map (rep (pairs edges))).dedup.insertionSort (· ≤ ·) :=
    hperm.mem_iff.mpr (List.mem_dedup.mpr (List.mem_map_of_mem hm))
  rw [get?_ofPairs_zipIdx hsorted hmem, number]
  simp only [List.mem_insertionSort, List.mem_dedup, List.mem_map, heads, Set.mem_ofPred_eq]

lemma mapM_map_eq_some {α β γ : Type*} {f : β → Option γ} {r : α → β} {g : α → γ} {xs : List α}
    (h : ∀ x ∈ xs, f (r x) = some (g x)) : (xs.map r).mapM f = some (xs.map g) := by
  induction xs with
  | nil => rfl
  | cons x xs ih =>
    rw [List.map_cons, List.mapM_cons, h x List.mem_cons_self, ih fun y hy =>
      h y (List.mem_cons_of_mem _ hy)]
    rfl

theorem goldComponents_spec (edges : List ReplyEdge) : ∃ comp, goldComponents edges = some comp ∧
    ∀ m, get? comp m = if m ∈ messages edges then some (number edges m) else none := by
  obtain ⟨dsu, hunion, hdsu⟩ := represents_nil.foldlM_union (pairs edges)
  obtain ⟨dsu', hfound, hdsu'⟩ := hdsu.findAll_spec (messages edges)
  obtain ⟨dsu'', hagain, -⟩ := hdsu'.findAll_spec (messages edges)
  have hcids := mapM_map_eq_some fun m (hm : m ∈ messages edges) => rootToCid_spec hm
  have hzip : (messages edges).zip ((messages edges).map (number edges)) =
      (messages edges).map fun m => (m, number edges m) := by
    simpa using List.zip_map' (f := id) (g := number edges) (l := messages edges)
  refine ⟨ofPairs ((messages edges).map fun m => (m, number edges m)), ?_, fun m => ?_⟩
  swap
  · rw [get?_ofPairs_map_pair]
    split_ifs <;> rfl
  rw [← hzip, goldComponents,
    show (edges.map ReplyEdge.ends).foldlM union [] = some dsu from hunion]
  simp only [Option.bind_eq_bind, Option.bind_some, hfound, hagain]
  exact congrArg (Option.bind · fun cids => some (ofPairs ((messages edges).zip cids))) hcids

def component (edges : List ReplyEdge) (m : PyStr) : Set PyStr := {x | Connected (pairs edges) m x}

def smallestIds (edges : List ReplyEdge) :
    Set PyStr := {s | ∃ m ∈ messages edges, IsLeast (component edges m) s}

/-- A component's number is the rank of its smallest id. -/
def NumberedBySmallest (edges : List ReplyEdge) (comp : Dict PyStr ℕ) : Prop :=
  ∀ m ∈ messages edges, ∀ s, IsLeast (component edges m) s →
    get? comp m = some {s' ∈ smallestIds edges | s' < s}.ncard

/-- The possible representatives of the components come in the order of their smallest ids. -/
def LeadersInOrder (edges : List ReplyEdge) : Prop :=
  ∀ v ∈ messages edges, ∀ v' ∈ messages edges, CanLead (pairs edges) v → CanLead (pairs edges) v' →
    ∀ s s', IsLeast (component edges v) s → IsLeast (component edges v') s' → s < s' → v < v'

variable {edges edges' : List ReplyEdge}

lemma mem_messages {m : PyStr} :
    m ∈ messages edges ↔ ∃ ed ∈ edges, m = ed.childMsgId ∨ m = ed.parentMsgId := by
  simp [messages]

lemma mem_messages_of_connected {a b : PyStr} (h : Connected (pairs edges) a b) :
    a ∈ messages edges ↔ b ∈ messages edges := by
  refine h.iff_of_edges fun x y hxy => ?_
  obtain ⟨ed, hed, heq⟩ := List.mem_map.mp hxy
  obtain ⟨rfl, rfl⟩ := Prod.mk.inj heq
  exact iff_of_true (mem_messages.mpr ⟨ed, hed, .inl rfl⟩) (mem_messages.mpr ⟨ed, hed, .inr rfl⟩)

lemma component_eq {a b : PyStr} (h : Connected (pairs edges) a b) :
    component edges a = component edges b := by
  ext x
  exact ⟨h.symm.trans, h.trans⟩

lemma connected_of_isLeast {a b s : PyStr} (ha : IsLeast (component edges a) s)
    (hb : IsLeast (component edges b) s) :
    Connected (pairs edges) a b :=
  Connected.trans ha.1 (Connected.symm hb.1)

lemma finite_messages (edges : List ReplyEdge) :
    {m | m ∈ messages edges}.Finite := List.finite_toSet _

lemma exists_isLeast {m : PyStr} (hm : m ∈ messages edges) :
    ∃ s, IsLeast (component edges m) s := by
  have hfin : (component edges m).Finite :=
    (finite_messages edges).subset fun x hx => (mem_messages_of_connected hx).mp hm
  obtain ⟨s, hs, hmin⟩ := Set.exists_min_image _ id hfin ⟨m, Connected.refl _ m⟩
  exact ⟨s, hs, hmin⟩

lemma smallestIds_subset : smallestIds edges ⊆ {m | m ∈ messages edges} := by
  rintro s ⟨m, hm, hs⟩
  exact (mem_messages_of_connected hs.1).mp hm

lemma heads_subset : heads edges ⊆ {m | m ∈ messages edges} := by
  rintro h ⟨m, hm, rfl⟩
  exact (mem_messages_of_connected (connected_rep _ m)).mp hm

lemma ncard_lt_iff {α : Type*} [LinearOrder α] {A : Set α} (hA : A.Finite) {x y : α} (hx : x ∈ A) :
    {a ∈ A | a < x}.ncard < {a ∈ A | a < y}.ncard ↔ x < y := by
  constructor
  · intro h
    by_contra! hle
    have hsub : {a ∈ A | a < y} ⊆ {a ∈ A | a < x} := fun a ha => ⟨ha.1, ha.2.trans_le hle⟩
    exact absurd (Set.ncard_le_ncard hsub (hA.subset fun a ha => ha.1)) (by omega)
  · intro h
    have hsub : {a ∈ A | a < x} ⊆ {a ∈ A | a < y} := fun a ha => ⟨ha.1, ha.2.trans h⟩
    refine Set.ncard_lt_ncard ((Set.ssubset_iff_of_subset hsub).mpr ?_) (hA.subset fun a ha => ha.1)
    exact ⟨x, ⟨hx, h⟩, fun hxx => lt_irrefl x hxx.2⟩

lemma number_lt_iff {a : PyStr} (ha : a ∈ messages edges) (b : PyStr) :
    number edges a < number edges b ↔ rep (pairs edges) a < rep (pairs edges) b :=
  ncard_lt_iff ((finite_messages edges).subset heads_subset) ⟨a, ha, rfl⟩

lemma number_eq_iff {a b : PyStr} (ha : a ∈ messages edges) (hb : b ∈ messages edges) :
    number edges a = number edges b ↔ Connected (pairs edges) a b := by
  rw [← rep_eq_iff]
  constructor
  · intro h
    have hab := mt (number_lt_iff ha b).mpr h.not_lt
    have hba := mt (number_lt_iff hb a).mpr h.symm.not_lt
    exact le_antisymm (not_lt.mp hba) (not_lt.mp hab)
  · intro h
    rw [number, number, h]

lemma rep_of_mem_heads {t : PyStr} (ht : t ∈ heads edges) : rep (pairs edges) t = t := by
  obtain ⟨m, -, rfl⟩ := ht
  exact rep_rep _ m

lemma rep_mem_heads {m : PyStr} (hm : m ∈ messages edges) :
    rep (pairs edges) m ∈ heads edges := ⟨m, hm, rfl⟩

lemma head_lt_iff (h : LeadersInOrder edges) {t t' s s' : PyStr} (ht : t ∈ heads edges)
    (ht' : t' ∈ heads edges)
    (hs : IsLeast (component edges t) s) (hs' : IsLeast (component edges t') s') : t < t' ↔
    s < s' := by
  have hlead := canLead_of_rep (rep_of_mem_heads ht)
  have hlead' := canLead_of_rep (rep_of_mem_heads ht')
  constructor
  · intro hlt
    by_contra! hle
    rcases hle.lt_or_eq with hss | rfl
    · exact hlt.asymm (h t' (heads_subset ht') t (heads_subset ht) hlead' hlead s' s hs' hs hss)
    · have heq := (rep_eq_iff _ t t').mpr (connected_of_isLeast hs hs')
      rw [rep_of_mem_heads ht, rep_of_mem_heads ht'] at heq
      exact hlt.ne heq
  · exact h t (heads_subset ht) t' (heads_subset ht') hlead hlead' s s' hs hs'

lemma number_eq_of_leadersInOrder (h : LeadersInOrder edges) {m s : PyStr} (hm : m ∈ messages edges)
    (hs : IsLeast (component edges m) s) : number edges m =
      {s' ∈ smallestIds edges | s' < s}.ncard := by
  choose! least hleast using fun m (hm : m ∈ messages edges) => exists_isLeast hm
  have hrep : IsLeast (component edges (rep (pairs edges) m)) s :=
    component_eq (connected_rep _ m) ▸ hs
  have hlt : ∀ t ∈ heads edges, t < rep (pairs edges) m ↔ least t < s := fun t ht =>
    head_lt_iff h ht (rep_mem_heads hm) (hleast t (heads_subset ht)) hrep
  have himage : {s' ∈ smallestIds edges | s' < s} =
      least '' {t ∈ heads edges | t < rep (pairs edges) m} := by
    ext s'
    constructor
    · rintro ⟨⟨m', hm', hs'⟩, hlt'⟩
      have hhead := rep_mem_heads hm'
      have hleast' : least (rep (pairs edges) m') = s' :=
        (hleast _ (heads_subset hhead)).unique (component_eq (connected_rep _ m') ▸ hs')
      exact ⟨_, ⟨hhead, (hlt _ hhead).mpr (hleast' ▸ hlt')⟩, hleast'⟩
    · rintro ⟨t, ⟨ht, htm⟩, rfl⟩
      exact ⟨⟨t, heads_subset ht, hleast t (heads_subset ht)⟩, (hlt t ht).mp htm⟩
  have hinj : Set.InjOn least {t ∈ heads edges | t < rep (pairs edges) m} := by
    rintro t ⟨ht, -⟩ t' ⟨ht', -⟩ heq
    have hsame := connected_of_isLeast (hleast t (heads_subset ht))
      (heq ▸ hleast t' (heads_subset ht'))
    rw [← rep_eq_iff, rep_of_mem_heads ht, rep_of_mem_heads ht'] at hsame
    exact hsame
  rw [himage, Set.InjOn.ncard_image hinj, number]

lemma messages_perm (h : edges'.Perm edges) (m : PyStr) :
    m ∈ messages edges' ↔ m ∈ messages edges := by
  simp only [mem_messages, h.mem_iff]

lemma component_perm (h : edges'.Perm edges) (m : PyStr) :
    component edges' m = component edges m := by
  ext x
  exact Connected.perm (h.map _)

lemma smallestIds_perm (h : edges'.Perm edges) : smallestIds edges' = smallestIds edges := by
  simp only [smallestIds, messages_perm h, component_perm h]

lemma LeadersInOrder.perm (h : edges'.Perm edges) (hlead : LeadersInOrder edges) :
    LeadersInOrder edges' := by
  intro v hv v' hv' hl hl' s s' hs hs'
  rw [messages_perm h] at hv hv'
  rw [component_perm h] at hs hs'
  exact hlead v hv v' hv' (hl.perm (h.map _)) (hl'.perm (h.map _)) s s' hs hs'

lemma exists_perm_edges {ps : List (PyStr × PyStr)} (h : ps.Perm (pairs edges)) :
    ∃ edges', edges'.Perm edges ∧ pairs edges' = ps := by
  have hends : List.Forall₂ (fun p ed => p = ReplyEdge.ends ed) (pairs edges) edges := by
    rw [pairs, List.forall₂_map_left_iff, List.forall₂_same]
    exact fun _ _ => rfl
  obtain ⟨edges', hps, hperm⟩ := List.perm_comp_forall₂ h hends
  rw [← List.forall₂_map_right_iff, List.forall₂_eq_eq_eq] at hps
  exact ⟨edges', hperm, hps.symm⟩

lemma number_perm (hlead : LeadersInOrder edges) (h : edges'.Perm edges) {m : PyStr}
    (hm : m ∈ messages edges) :
    number edges' m = number edges m := by
  obtain ⟨s, hs⟩ := exists_isLeast hm
  rw [number_eq_of_leadersInOrder hlead hm hs, ← smallestIds_perm h]
  exact number_eq_of_leadersInOrder (hlead.perm h) ((messages_perm h m).mpr hm)
    ((component_perm h m).symm ▸ hs)

lemma exists_perm_leaders {v v' : PyStr} (hlead : CanLead (pairs edges) v)
    (hlead' : CanLead (pairs edges) v') (hapart : ¬Connected (pairs edges) v v') :
    ∃ edges', edges'.Perm edges ∧ rep (pairs edges') v = v ∧ rep (pairs edges') v' = v' := by
  have honly : ∀ a b, (a = v ∨ a = v') → (b = v ∨ b = v') →
      Connected (pairs edges) a b → a = b := by
    rintro a b (rfl | rfl) (rfl | rfl) hab
    · rfl
    · exact absurd hab hapart
    · exact absurd hab.symm hapart
    · rfl
  have hall : ∀ a, (a = v ∨ a = v') → CanLead (pairs edges) a := by
    rintro a (rfl | rfl)
    · exact hlead
    · exact hlead'
  obtain ⟨ps, hps, hrep⟩ := exists_perm_rep (S := fun x => x = v ∨ x = v') honly hall
  obtain ⟨edges', hperm, rfl⟩ := exists_perm_edges hps
  exact ⟨edges', hperm, hrep v (.inl rfl), hrep v' (.inr rfl)⟩

/-- The components are numbered by their smallest ids, whatever the order of the edges, exactly when
the possible representatives are in the order of the smallest ids. -/
theorem gold_components_by_smallest_iff (edges : List ReplyEdge) :
    (∃ comp, goldComponents edges = some comp ∧ NumberedBySmallest edges comp ∧
      (∀ a ∈ messages edges, ∀ b ∈ messages edges, get? comp a = get? comp b ↔
        Connected (pairs edges) a b) ∧
        ∀ edges', edges'.Perm edges → ∃ comp', goldComponents edges' = some comp' ∧ ∀ m,
          get? comp' m = get? comp m) ↔
      LeadersInOrder edges := by
  constructor
  · rintro ⟨comp, -, hsmallest, -, hperm⟩ v hv v' hv' hlead hlead' s s' hs hs' hlt
    have hapart : ¬Connected (pairs edges) v v' := fun hcon =>
      hlt.ne (hs.unique (component_eq hcon ▸ hs'))
    obtain ⟨edges', hedges', hrep, hrep'⟩ := exists_perm_leaders hlead hlead' hapart
    obtain ⟨comp', hcomp', hsame⟩ := hperm edges' hedges'
    obtain ⟨comp'', hcomp'', hnumber⟩ := goldComponents_spec edges'
    obtain rfl : comp'' = comp' := Option.some.inj (hcomp''.symm.trans hcomp')
    have hrank : ∀ {m r}, m ∈ messages edges → IsLeast (component edges m) r →
        number edges' m = {r' ∈ smallestIds edges | r' < r}.ncard := by
      intro m r hm hr
      have heq := (hsame m).trans (hsmallest m hm r hr)
      rw [hnumber m, if_pos ((messages_perm hedges' m).mpr hm)] at heq
      exact Option.some.inj heq
    have hfin := (finite_messages edges).subset smallestIds_subset
    have hnum : number edges' v < number edges' v' := by
      rw [hrank hv hs, hrank hv' hs']
      exact (ncard_lt_iff hfin ⟨v, hv, hs⟩).mpr hlt
    rw [number_lt_iff ((messages_perm hedges' v).mpr hv), hrep, hrep'] at hnum
    exact hnum
  · intro hlead
    obtain ⟨comp, hcomp, hnumber⟩ := goldComponents_spec edges
    refine ⟨comp, hcomp, fun m hm s hs => ?_, fun a ha b hb => ?_, fun edges' hperm => ?_⟩
    · rw [hnumber m, if_pos hm, number_eq_of_leadersInOrder hlead hm hs]
    · rw [hnumber a, hnumber b, if_pos ha, if_pos hb, Option.some.injEq, number_eq_iff ha hb]
    · obtain ⟨comp', hcomp', hnumber'⟩ := goldComponents_spec edges'
      refine ⟨comp', hcomp', fun m => ?_⟩
      rw [hnumber', hnumber]
      by_cases hm : m ∈ messages edges
      · rw [if_pos hm, if_pos ((messages_perm hperm m).mpr hm), number_perm hlead hperm hm]
      · rw [if_neg hm, if_neg fun h => hm ((messages_perm hperm m).mp h)]

/-- Two reply pairs, `b` to `z` and `c` to `d`: the pair with the smallest id gets the second
number. -/
theorem larger_smallest_id_first : goldComponents (extractEdges asciiEnv
      [⟨1, .user, py "z", [], py "发布"⟩, ⟨2, .user, py "d", [], py "登录"⟩,
        ⟨3, .bot, py "b", py "z", py "好"⟩,
        ⟨4, .bot, py "c", py "d", py "好"⟩]) =
      some [(py "b", 1), (py "z", 1), (py "c", 0), (py "d", 0)] := by
  decide +kernel

end AgentTrajectory.ReplyChainGold
