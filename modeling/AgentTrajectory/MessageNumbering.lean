import AgentTrajectory.DecomposeContract
import AgentTrajectory.DecomposeTask
import AgentTrajectory.RelatedLists

/-! A message number means one message from the transcript to the stored ids. The transcript
and `_effective` filter alike, the chunks concatenate to the effective list, and every pass
over an answer keeps to the numbers of the answer. -/
namespace AgentTrajectory.DecomposeTask
open PyText PyDict PyJson PyValue TaskStitch LlmDecompose RouteDay RelatedLists

variable {d : Display}

structure Numbered (d : Display) (t : Transcript) : Prop where
  length : t.rows.length = t.events.length
  line : ∀ (k : ℕ) (e : DayEvent), t.events[k]? = some e →
    ∃ msgid2idx, t.rows[k]? = some (transcriptLine d (k + 1) msgid2idx e)

lemma Numbered.append {t : Transcript} (h : Numbered d t) (e : DayEvent)
    (known known' : Dict PyStr ℕ) :
    Numbered d ⟨t.rows ++ [transcriptLine d (t.events.length + 1) known e],
      t.events ++ [e], known'⟩ := by
  refine ⟨by simp [h.length], fun k e' hk => ?_⟩
  rcases Nat.lt_trichotomy k t.events.length with hlt | rfl | hgt
  · rw [List.getElem?_append_left hlt] at hk
    rw [List.getElem?_append_left (by rw [h.length]; exact hlt)]
    exact h.line k e' hk
  · obtain rfl : e = e' := by simpa using hk
    refine ⟨known, ?_⟩
    rw [← h.length]
    simp
  · rw [List.getElem?_eq_none (by simp; omega)] at hk
    simp at hk

lemma Numbered.addLine {t : Transcript} (h : Numbered d t) (e : DayEvent) :
    Numbered d (addLine d t e) := by
  rw [DecomposeTask.addLine]
  split
  · exact h.append e _ _
  · exact h

lemma numbered_foldl (cluster : List DayEvent) {t : Transcript} (h : Numbered d t) :
    Numbered d (cluster.foldl (addLine d) t) := by
  induction cluster generalizing t with
  | nil => exact h
  | cons e es ih => exact ih (h.addLine e)

lemma numbered_buildTranscript (cluster : List DayEvent) : Numbered d (buildTranscript d cluster) :=
  numbered_foldl cluster ⟨rfl, by simp⟩

lemma events_foldl (cluster : List DayEvent) (t : Transcript) :
    (cluster.foldl (addLine d) t).events = t.events ++ effectiveEvents d cluster := by
  induction cluster generalizing t with
  | nil => simp [effectiveEvents]
  | cons e es ih =>
    rw [List.foldl_cons, ih, addLine]
    by_cases he : shown d e = true
    · simp [he, effectiveEvents]
    · simp [he, effectiveEvents]

lemma events_buildTranscript (cluster : List DayEvent) :
    (buildTranscript d cluster).events = effectiveEvents d cluster := by
  rw [buildTranscript, events_foldl, List.nil_append]

lemma length_rows (cluster : List DayEvent) :
    (buildTranscript d cluster).rows.length = (effectiveEvents d cluster).length := by
  rw [(numbered_buildTranscript cluster).length, events_buildTranscript]

lemma flatten_cutInto (eff : List DayEvent) (prev : ℕ) (cs : List ℕ) :
    (cutInto eff prev cs).flatten = eff.drop prev := by
  induction cs generalizing prev with
  | nil => simp [cutInto]
  | cons c cs ih =>
    rw [cutInto]
    split_ifs with hc
    · rw [List.flatten_cons, ih, List.drop_take]
      conv_rhs => rw [← List.take_append_drop (c - prev) (eff.drop prev), List.drop_drop]
      rw [Nat.add_sub_cancel' hc.le]
    · exact ih prev

lemma flatten_splitByGaps (eff : List DayEvent) (target : ℕ) :
    (splitByGaps eff target).flatten = eff := by
  rw [splitByGaps]
  split_ifs
  · simp
  · rw [List.flatten_filter_not_isEmpty, flatten_cutInto, List.drop_zero]

/-- The lists that the model is shown one after another. -/
def shownLists (d : Display) (bigThreshold chunkTarget : ℕ) (cluster : List DayEvent) :
    List (List DayEvent) :=
  if (effectiveEvents d cluster).length ≤ bigThreshold then [cluster]
  else splitByGaps (effectiveEvents d cluster) chunkTarget

lemma flatten_shownLists (bigThreshold chunkTarget : ℕ) (cluster : List DayEvent) :
    ((shownLists d bigThreshold chunkTarget cluster).map (effectiveEvents d)).flatten =
      effectiveEvents d cluster := by
  rw [shownLists]
  split_ifs
  · simp
  · have hfilter := List.filter_flatten (p := shown d)
      (L := splitByGaps (effectiveEvents d cluster) chunkTarget)
    rw [flatten_splitByGaps] at hfilter
    refine hfilter.symm.trans ?_
    simp [effectiveEvents]

/-- The number of lines shown before the list number `c`. -/
def linesBefore (d : Display) (lists : List (List DayEvent)) (c : ℕ) : ℕ :=
  ((lists.take c).map fun l => (buildTranscript d l).rows.length).sum

lemma getElem?_flatten_lists {lists : List (List DayEvent)} {c k : ℕ} {chunk : List DayEvent}
    (hc : lists[c]? = some chunk) (hk : k < (effectiveEvents d chunk).length) :
    ((lists.map (effectiveEvents d)).flatten)[k + linesBefore d lists c]? =
      (effectiveEvents d chunk)[k]? := by
  induction lists generalizing c with
  | nil => simp at hc
  | cons l ls ih =>
    rw [List.map_cons, List.flatten_cons]
    cases c with
    | zero =>
      obtain rfl : l = chunk := by simpa using hc
      exact List.getElem?_append_left hk
    | succ c =>
      have hbefore : linesBefore d (l :: ls) (c + 1) = (effectiveEvents d l).length +
          linesBefore d ls c := by
        simp [linesBefore, length_rows]
      rw [hbefore, List.getElem?_append_right (by omega), ← ih (by simpa using hc)]
      congr 1
      omega

inductive NamedAfter (a s : Subreq) : Prop
  | whole (id : s.id = a.id) (title : s.title = a.title)
  | stray {old : PyStr} (answered : a.id.getD (.str (py "S?")) = .str old)
    (id : s.id = some (.str (old ++ py "a")))
  | back {old : PyStr} (answered : a.id.getD (.str (py "S?")) = .str old)
    (id : s.id = some (.str (old ++ py "b")))
      (title : s.title = a.title)

structure MadeOf (env : Env) (a s : Subreq) : Prop where
  name : NamedAfter a s
  members : ∀ x ∈ s.memberIdx, x ∈ a.memberIdx ∨ ∃ j ∈ a.numbers env, x = .num j

section Passes
variable {env : Env} {setOrder : ℕ → ℕ → Bool}

lemma NamedAfter.of_same {a s s' : Subreq} (h : NamedAfter a s) (hid : s'.id = s.id)
    (htitle : s'.title = s.title) :
    NamedAfter a s' := by
  cases h with
  | whole id title => exact .whole (hid.trans id) (htitle.trans title)
  | stray answered id => exact .stray answered (hid.trans id)
  | back answered id title => exact .back answered (hid.trans id) (htitle.trans title)

lemma madeOf_repair {rows : List Event} {r r' : Result}
    (h : repair env rows r = .ok r') {s : Subreq}
    (hs : s ∈ r'.subreqs) : ∃ a ∈ r.subreqs, MadeOf env a s := by
  rw [LlmDecompose.repair] at h
  cases hpure : enforceRollbackPurity env rows r with
  | error e => simp [hpure] at h
  | ok r₁ =>
    obtain ⟨out, hout, rfl⟩ := map_eq_ok.mp hpure
    simp only [hpure, enforceStatusSanity] at h
    cases hids : reworkIds out.2 with
    | error e => simp [hids] at h
    | ok ids =>
      simp only [hids] at h
      obtain ⟨ss, hss, rfl⟩ := map_eq_ok.mp h
      obtain ⟨p, hp, hsane⟩ := forall₂_mem_right (saneSubreqs_ok hss) hs
      obtain ⟨a, ha, hpart⟩ := purifyFrom_parts hout p hp
      have hmade : MadeOf env a p := by
        cases hpart with
        | whole _ => exact ⟨.whole rfl rfl, fun x hx => .inl hx⟩
        | stray hcut =>
          refine ⟨.stray (rollbackCut_some hcut).2.1 rfl, fun x hx => .inr ?_⟩
          obtain ⟨j, hj, rfl⟩ := List.mem_map.mp hx
          exact ⟨j, (rollbackCut_some hcut).2.2.1.subset (by simp [hj]), rfl⟩
        | back hcut =>
          refine ⟨.back (rollbackCut_some hcut).2.1 rfl rfl, fun x hx => .inr ?_⟩
          obtain ⟨j, hj, rfl⟩ := List.mem_map.mp hx
          exact ⟨j, (rollbackCut_some hcut).2.2.1.subset (by simp [hj]), rfl⟩
      refine ⟨a, ha, ?_⟩
      rcases hsane with ⟨rfl, -⟩ | rfl
      · exact hmade
      · exact ⟨hmade.name.of_same rfl rfl, hmade.members⟩

lemma madeOf_oneLoop {rows : List Event} {attempts : List (Except PyError Result)} {r : Result}
    (h : oneLoop env setOrder rows false none attempts = .ok r) {s : Subreq} (hs : s ∈ r.subreqs) :
    ∃ A, Except.ok A ∈ attempts ∧ ∃ a ∈ A.subreqs, MadeOf env a s := by
  obtain ⟨R, hR, t, ht, hless⟩ := less_of_oneLoop h hs
  obtain ⟨A, hA, hrep⟩ := mem_repaired hR
  obtain ⟨a, ha, hmade⟩ := madeOf_repair hrep ht
  exact ⟨A, hA, a, ha, hmade.name.of_same hless.id hless.title, fun x hx =>
    hmade.members x (hless.members hx)⟩

end Passes

/-- The indexes of an answer lie within the list it was given for. -/
def WithinList (d : Display) (list : List DayEvent) (r : Result) : Prop :=
  ∀ a ∈ r.subreqs, ∀ x ∈ a.memberIdx, ∃ j, asSegInt d.env x = some j ∧ 0 < j ∧
    j ≤ (buildTranscript d list).rows.length

/-- The message that was shown under number `j` of a list. -/
structure ShownUnder (d : Display) (list : List DayEvent) (j : ℕ) (e : DayEvent) : Prop where
  pos : 0 < j
  line : ∃ msgid2idx, (buildTranscript d list).rows[j - 1]? = some (transcriptLine d j msgid2idx e)
  event : (effectiveEvents d list)[j - 1]? = some e

lemma exists_shownUnder {list : List DayEvent} {j : ℕ} (hpos : 0 < j)
    (hj : j ≤ (buildTranscript d list).rows.length) : ∃ e, ShownUnder d list j e := by
  rw [length_rows] at hj
  have he := List.getElem?_eq_getElem (l := effectiveEvents d list) (i := j - 1) (by omega)
  have hline := (numbered_buildTranscript list :
    Numbered d _).line (j - 1) _ (by rw [events_buildTranscript]; exact he)
  rw [Nat.sub_add_cancel hpos] at hline
  exact ⟨_, hpos, hline, he⟩

/-- The members are numbers of the answered sub-requirement, moved by `offset`. -/
def MembersFrom (d : Display) (list : List DayEvent) (offset : ℕ) (a s : Subreq) : Prop :=
  ∀ x ∈ s.memberIdx, ∃ j ∈ a.numbers d.env, asSegInt d.env x = some (j + offset) ∧ 0 < j ∧
    j ≤ (buildTranscript d list).rows.length

section Task
variable {setOrder : ℕ → ℕ → Bool} {answers : ℕ → List (Except PyError Result)}

lemma one_members {list : List DayEvent}
    {attempts : List (Except PyError Result)} {res : Result × ℕ}
    (hin : ∀ r, Except.ok r ∈ attempts → WithinList d list r)
    (h : one d setOrder list attempts = .ok res) :
    (∀ s ∈ res.1.subreqs, ∃ A, Except.ok A ∈ attempts ∧ ∃ a ∈ A.subreqs, NamedAfter a s ∧
      MembersFrom d list 0 a s) ∧
      res.2 = (buildTranscript d list).rows.length := by
  obtain ⟨r, hr, rfl⟩ := map_eq_ok.mp h
  refine ⟨fun s hs => ?_, rfl⟩
  obtain ⟨A, hA, a, ha, hmade⟩ := madeOf_oneLoop hr hs
  refine ⟨A, hA, a, ha, hmade.name, fun x hx => ?_⟩
  rcases hmade.members x hx with hx | ⟨j, hj, rfl⟩
  · obtain ⟨j, hj, hpos, hle⟩ := hin A hA a ha x hx
    exact ⟨j, List.mem_filterMap.mpr ⟨x, hx, hj⟩, hj, hpos, hle⟩
  · obtain ⟨y, hy, hyj⟩ := List.mem_filterMap.mp hj
    obtain ⟨j', hj', hpos, hle⟩ := hin A hA a ha y hy
    obtain rfl := Option.some.inj (hyj.symm.trans hj')
    exact ⟨j, hj, rfl, hpos, hle⟩

lemma MembersFrom.shift {list : List DayEvent} {ci offset : ℕ} {a s : Subreq}
    (h : MembersFrom d list 0 a s) :
    MembersFrom d list offset a (shiftSubreq d ci offset s) := by
  intro x hx
  obtain ⟨y, hy, rfl⟩ := List.mem_map.mp hx
  obtain ⟨j, hj, hyj, hrest⟩ := h y hy
  exact ⟨j, hj, by rw [hyj]; rfl, hrest⟩

/-- The sub-requirement comes from an answer on chunk `c`, whose lines are numbered from `offset`
on. -/
def ChunkPart (d : Display) (answers : ℕ → List (Except PyError Result))
    (c offset : ℕ) (list : List DayEvent) (s : Subreq) : Prop :=
  ∃ A, Except.ok A ∈ answers c ∧ ∃ a ∈ A.subreqs, MembersFrom d list offset a s ∧
    ∃ t, NamedAfter a t ∧ s.id = some (chunkId d (c + 1) t) ∧ s.title = t.title

lemma mergeFrom_members {lists : List (List DayEvent)} {c offset : ℕ}
    {merged : Result} {res : Result × ℕ} (hin : ∀ k list, lists[k]? = some list → ∀ r,
      Except.ok r ∈ answers (c + k) → WithinList d list r)
    (h : mergeFrom d setOrder answers c offset merged lists = .ok res) :
    ∀ s ∈ res.1.subreqs, s ∈ merged.subreqs ∨ ∃ k list, lists[k]? = some list ∧
      ChunkPart d answers (c + k) (offset + linesBefore d lists k) list s := by
  induction lists generalizing c offset merged with
  | nil =>
    obtain rfl := Except.ok.inj h
    exact fun s hs => .inl hs
  | cons list lists ih =>
    obtain ⟨out, hout, h⟩ := bind_eq_ok.mp h
    obtain ⟨merged', hmerge, h⟩ := bind_eq_ok.mp h
    obtain ⟨hmem, hlen⟩ := one_members (hin 0 list rfl) hout
    intro s hs
    have hin' : ∀ k l, lists[k]? = some l → ∀ r,
        Except.ok r ∈ answers (c + 1 + k) → WithinList d l r := by
      intro k l hk r hr
      exact hin (k + 1) l hk r (by rwa [Nat.add_right_comm, Nat.add_assoc] at hr)
    rcases ih hin' h s hs with hs | ⟨k, l, hk, hx⟩
    · rw [mergeChunk] at hmerge
      split_ifs at hmerge
      obtain ⟨edges, -, hmerge⟩ := bind_eq_ok.mp hmerge
      obtain rfl := Except.ok.inj hmerge
      rcases List.mem_append.mp hs with hs | hs
      · exact .inl hs
      · obtain ⟨t, ht, rfl⟩ := List.mem_map.mp hs
        obtain ⟨A, hA, a, ha, hname, hnum⟩ := hmem t ht
        exact .inr ⟨0, list, rfl, A, hA, a, ha, hnum.shift, t, hname, rfl, rfl⟩
    · refine .inr ⟨k + 1, l, hk, ?_⟩
      have hbefore : linesBefore d (list :: lists) (k + 1) = out.2 + linesBefore d lists k := by
        simp [linesBefore, hlen]
      rw [hbefore, ← Nat.add_assoc offset, show c + (k + 1) = c + 1 + k by omega]
      exact hx

variable {bigThreshold chunkTarget : ℕ} {cluster : List DayEvent}
    {terminal : Bool} {res : Result × ℕ}

/-- The id of a sub-requirement of the result: in the chunked path with the number of the chunk. -/
def resultId (d : Display) (bigThreshold : ℕ) (cluster : List DayEvent) (c : ℕ) (t : Subreq) :
    Option Json :=
  if (effectiveEvents d cluster).length ≤ bigThreshold then t.id else some (chunkId d (c + 1) t)

lemma decomposeOneTask_members
    (hin : ∀ c list, (shownLists d bigThreshold chunkTarget cluster)[c]? = some list →
      ∀ r, Except.ok r ∈ answers c → WithinList d list r)
    (h : decomposeOneTask d setOrder bigThreshold chunkTarget cluster answers terminal = .ok res) :
    ∀ s ∈ res.1.subreqs, ∃ c list, (shownLists d bigThreshold chunkTarget cluster)[c]? = some list ∧
      ∃ A, Except.ok A ∈ answers c ∧ ∃ a ∈ A.subreqs,
        MembersFrom d list (linesBefore d (shownLists d bigThreshold chunkTarget cluster) c) a s ∧
        ∃ t, NamedAfter a t ∧ s.id = resultId d bigThreshold cluster c t ∧ s.title = t.title := by
  obtain ⟨mid, hmid, h⟩ := bind_eq_ok.mp h
  obtain ⟨r, htail, h⟩ := bind_eq_ok.mp h
  obtain rfl := Except.ok.inj h
  obtain ⟨-, -, ids, -, hsettled, -⟩ := enforceTerminalTail_spec htail
  intro s hs
  obtain ⟨t, ht, hst⟩ := forall₂_mem_right hsettled hs
  simp only [MembersFrom, hst.members, hst.id, hst.title]
  rw [gather] at hmid
  simp only [shownLists, resultId] at hin ⊢
  split_ifs at hin hmid ⊢
  · obtain ⟨A, hA, a, ha, hname, hnum⟩ := (one_members (hin 0 cluster rfl) hmid).1 t ht
    exact ⟨0, cluster, rfl, A, hA, a, ha, hnum, t, hname, rfl, rfl⟩
  · have hin' : ∀ k list, (splitByGaps (effectiveEvents d cluster) chunkTarget)[k]? = some list →
        ∀ r, Except.ok r ∈ answers (0 + k) → WithinList d list r := by
      intro k list hk r hr
      exact hin k list hk r (by rwa [Nat.zero_add] at hr)
    rcases mergeFrom_members hin' hmid t ht with ht | ⟨c, list, hc, hx⟩
    · simp at ht
    · rw [Nat.zero_add, Nat.zero_add] at hx
      exact ⟨c, list, hc, hx⟩

/-- How a sub-requirement is stored: it is named after a sub-requirement that the model answered for
one of the lists, its members are numbers that this one was given, and the ids are those of the
messages shown under these numbers. -/
def StoredAs (d : Display) (bigThreshold : ℕ) (cluster : List DayEvent)
    (answers : ℕ → List (Except PyError Result))
    (lists : List (List DayEvent)) (s : Subreq) (stored : StoredSubreq) : Prop :=
  ∃ c list, lists[c]? = some list ∧ ∃ A, Except.ok A ∈ answers c ∧ ∃ a ∈ A.subreqs,
    (∃ t, NamedAfter a t ∧ s.id = resultId d bigThreshold cluster c t ∧ s.title = t.title) ∧
    ∃ events, stored.memberMsgIds = events.filterMap msgIdOf ∧
      List.Forall₂ (fun x e => ∃ j ∈ a.numbers d.env,
        asSegInt d.env x = some (j + linesBefore d lists c) ∧
        ShownUnder d list j e) s.memberIdx events

lemma memberMsgId_shown {lists : List (List DayEvent)} {list : List DayEvent} {c j : ℕ}
    {x : Member} {e : DayEvent}
    (hc : lists[c]? = some list) (hx : asSegInt d.env x = some (j + linesBefore d lists c))
    (he : ShownUnder d list j e) :
    memberMsgId d (lists.map (effectiveEvents d)).flatten x = msgIdOf e := by
  have hpos := he.pos
  have hlt : j - 1 < (effectiveEvents d list).length := (List.getElem?_eq_some_iff.mp he.event).1
  have hplace := getElem?_flatten_lists hc hlt
  rw [he.event] at hplace
  rw [memberMsgId, hx]
  simp only [show 0 < j + linesBefore d lists c by omega, if_true]
  rw [show j + linesBefore d lists c - 1 = j - 1 + linesBefore d lists c by omega, hplace]
  rfl

/-- In the small path and in the chunked one the id stored for a member is that of the
message whose line the model saw under the number it answered for this sub-requirement. -/
theorem stored_ids_are_shown (d : Display) (setOrder : ℕ → ℕ → Bool) (bigThreshold chunkTarget : ℕ)
    (cluster : List DayEvent) (answers : ℕ → List (Except PyError Result))
    (terminal : Bool) (res : Result × ℕ)
    (hin : ∀ c list, (shownLists d bigThreshold chunkTarget cluster)[c]? = some list →
      ∀ r, Except.ok r ∈ answers c → WithinList d list r)
    (h : decomposeOneTask d setOrder bigThreshold chunkTarget cluster answers terminal = .ok res) :
    List.Forall₂ (StoredAs d bigThreshold cluster answers
      (shownLists d bigThreshold chunkTarget cluster)) res.1.subreqs
      (subreqMemberMsgIds d res.1.subreqs (effectiveEvents d cluster)) := by
  rw [subreqMemberMsgIds, List.forall₂_map_right_iff, List.forall₂_same]
  intro s hs
  obtain ⟨c, list, hc, A, hA, a, ha, hmem, hname⟩ := decomposeOneTask_members hin h s hs
  have hshown : ∀ x ∈ s.memberIdx, ∃ e, ∃ j ∈ a.numbers d.env,
      asSegInt d.env x = some (j + linesBefore d
        (shownLists d bigThreshold chunkTarget cluster) c) ∧ ShownUnder d list j e := by
    intro x hx
    obtain ⟨j, hja, hj, hpos, hle⟩ := hmem x hx
    obtain ⟨e, he⟩ := exists_shownUnder hpos hle
    exact ⟨e, j, hja, hj, he⟩
  obtain ⟨events, hevents⟩ := forall₂_of_forall_exists hshown
  refine ⟨c, list, hc, A, hA, a, ha, hname, events, filterMap_eq_of_forall₂ hevents ?_, hevents⟩
  rintro x e ⟨j, -, hj, he⟩
  rw [← flatten_shownLists bigThreshold chunkTarget cluster]
  exact memberMsgId_shown hc hj he

instance (list : List DayEvent) (r : Result) : Decidable (WithinList d list r) :=
  decidable_of_iff (∀ s ∈ r.subreqs, ∀ x ∈ s.memberIdx, ((asSegInt d.env x).any fun j =>
    decide (0 < j) && decide (j ≤ (buildTranscript d list).rows.length)) = true) (by
      simp only [WithinList, Option.any_eq_true, Bool.and_eq_true, decide_eq_true_eq])

def plainDisplay : Display := ⟨asciiEnv, id, fun _ => py "09:00:00", none, fun _ => []⟩

/-- A cluster with a receipt between the messages. -/
def noisyCluster : List DayEvent :=
  [⟨ask, py "Ann"⟩, ⟨⟨1002000, .bot, py "m0", [], py "👀"⟩, py "bot"⟩,
    ⟨reply, py "bot"⟩, ⟨nextAsk, py "Ann"⟩]

def answerWith (x : Member) : Result := ⟨[⟨some (.str (py "S1")), none, .null, passed, [x]⟩], []⟩

def chunkAnswers : ℕ → List (Except PyError Result)
  | 0 => [.ok (answerWith (.text (py "#2")))]
  | 1 => [.ok (answerWith (.num 1))]
  | _ => []

theorem stored_ids_are_shown_noisyCluster :
    ∃ res, decomposeOneTask plainDisplay (fun _ _ => true) 1 2 noisyCluster chunkAnswers true =
      .ok res ∧
      (subreqMemberMsgIds plainDisplay res.1.subreqs
        (effectiveEvents plainDisplay noisyCluster)).map
        StoredSubreq.memberMsgIds = [[py "m2"], [py "m3"]] ∧
      List.Forall₂ (StoredAs plainDisplay 1 noisyCluster chunkAnswers
        (shownLists plainDisplay 1 2 noisyCluster)) res.1.subreqs
        (subreqMemberMsgIds plainDisplay res.1.subreqs
          (effectiveEvents plainDisplay noisyCluster)) := by
  obtain ⟨res, hres, hids⟩ := ok_of_toOption
    (show ∃ res ∈ (decomposeOneTask plainDisplay (fun _ _ =>
      true) 1 2 noisyCluster chunkAnswers true).toOption,
      (subreqMemberMsgIds plainDisplay res.1.subreqs
        (effectiveEvents plainDisplay noisyCluster)).map
        StoredSubreq.memberMsgIds = [[py "m2"], [py "m3"]] by decide +kernel)
  have hlists : shownLists plainDisplay 1 2 noisyCluster =
      [[⟨ask, py "Ann"⟩, ⟨reply, py "bot"⟩], [⟨nextAsk, py "Ann"⟩]] := by decide +kernel
  refine ⟨res, hres, hids,
    stored_ids_are_shown plainDisplay (fun _ _ =>
      true) 1 2 noisyCluster chunkAnswers true res ?_ hres⟩
  intro c list hc r hr
  rw [hlists] at hc
  match c, hr with
  | 0, hr =>
    obtain rfl := Option.some.inj hc
    obtain rfl : r = answerWith (.text (py "#2")) := by simpa [chunkAnswers] using hr
    decide +kernel
  | 1, hr =>
    obtain rfl := Option.some.inj hc
    obtain rfl : r = answerWith (.num 1) := by simpa [chunkAnswers] using hr
    decide +kernel

end Task

end AgentTrajectory.DecomposeTask
