import AgentTrajectory.PyText

/-! `_build_per_turn_context` of `antigravity_transcript_adapter.py`: the input of every assistant
turn. A `conversation_history` message stands for all messages in front of it; what a turn saw is
given by positions in the message list. -/
namespace AgentTrajectory.AntigravityContext
open PyText

/-- What is read of a message. -/
structure Message where
  role : PyStr
  subtype : Option PyStr
  deriving DecidableEq

def isHistory (m : Message) : Bool := m.subtype == some (py "conversation_history")

def historyAt (messages : List Message) (i : ℕ) : Bool := messages[i]?.any isHistory

structure Marks where
  seg : ℕ
  chIndices : List ℕ
  segs : List ℕ

def markStep (st : Marks) (p : Message × ℕ) : Marks :=
  if isHistory p.1 then ⟨st.seg + 1, st.chIndices ++ [p.2], st.segs ++ [st.seg + 1]⟩
  else ⟨st.seg, st.chIndices, st.segs ++ [st.seg]⟩

def markSegs (messages : List Message) : Marks := messages.zipIdx.foldl markStep ⟨0, [], []⟩

/-- The search for the last compression in front of a message, which stops at the first behind
it. -/
def latestBefore (i : ℕ) : Option ℕ → List ℕ → Option ℕ
  | latest, [] => latest
  | latest, c :: cs => if c < i then latestBefore i (some c) cs else latest

def contextIndices (messages : List Message) (chIndices : List ℕ) (i : ℕ) : List ℕ :=
  let latest := latestBefore i none chIndices
  let lo := (latest.map (· + 1)).getD 0
  latest.toList ++ (List.range' lo (i - lo)).filter fun j => !historyAt messages j

structure TurnContext where
  assistantIndex : ℕ
  contextIndices : List ℕ
  deriving DecidableEq

/-- `_build_per_turn_context`: the numbers written to the messages, and the turns. -/
def buildPerTurnContext (messages : List Message) : List ℕ × List TurnContext :=
  let marks := markSegs messages
  (marks.segs, (messages.zipIdx.filter fun p => p.1.role = py "assistant").map fun p =>
    ⟨p.2, contextIndices messages marks.chIndices p.2⟩)

def hold (context : List ℕ) (p : Message × ℕ) : List ℕ :=
  if isHistory p.1 then [p.2] else context ++ [p.2]

/-- The context that is held in front of a message when the session is replayed. -/
def replay (messages : List Message) (i : ℕ) : List ℕ := (messages.take i).zipIdx.foldl hold []

variable {messages : List Message} {i : ℕ}

lemma historyAt_eq {m : Message} (h : messages[i]? = some m) :
    historyAt messages i = isHistory m := by
  rw [historyAt, h]
  rfl

lemma replay_succ {m : Message} (h : messages[i]? = some m) :
    replay messages (i + 1) = if isHistory m then [i] else replay messages i ++ [i] := by
  have hlt : i < messages.length := (List.getElem?_eq_some_iff.mp h).1
  have hlength : (messages.take i).length = i := List.length_take_of_le hlt.le
  rw [replay, List.take_add_one, h, Option.toList_some, List.zipIdx_append, List.foldl_append,
    hlength, Nat.zero_add]
  rfl

lemma markSegs_append (messages : List Message) (m : Message) :
    markSegs (messages ++ [m]) = markStep (markSegs messages) (m, messages.length) := by
  rw [markSegs, List.zipIdx_append, List.foldl_append, Nat.zero_add]
  rfl

lemma historyAt_append_left (h : i < messages.length) (m : Message) :
    historyAt (messages ++ [m]) i = historyAt messages i := by
  rw [historyAt, List.getElem?_append_left h, historyAt]

lemma historyAt_length (messages : List Message) (m : Message) :
    historyAt (messages ++ [m]) messages.length = isHistory m :=
  historyAt_eq (by simp)

def segOf (messages : List Message) (i : ℕ) : ℕ := (messages.take (i + 1)).countP isHistory

lemma segOf_append_left (h : i < messages.length) (m : Message) :
    segOf (messages ++ [m]) i = segOf messages i := by
  rw [segOf, List.take_append_of_le_length h, segOf]

lemma markSegs_eq (messages : List Message) : markSegs messages = ⟨messages.countP isHistory,
      (List.range messages.length).filter (historyAt messages),
      (List.range messages.length).map (segOf messages)⟩ := by
  induction messages using List.reverseRecOn with
  | nil => rfl
  | append_singleton messages m ih =>
    have hindices : (List.range messages.length).filter (historyAt (messages ++ [m])) =
        (List.range messages.length).filter (historyAt messages) :=
      List.filter_congr fun j hj => historyAt_append_left (List.mem_range.mp hj) m
    have hsegs : (List.range messages.length).map (segOf (messages ++ [m])) =
        (List.range messages.length).map (segOf messages) :=
      List.map_congr_left fun j hj => segOf_append_left (List.mem_range.mp hj) m
    have hlast : segOf (messages ++ [m]) messages.length =
        messages.countP isHistory + if isHistory m then 1 else 0 := by
      rw [segOf, List.take_of_length_le (by simp), List.countP_append, List.countP_singleton]
    rw [markSegs_append, ih, markStep, List.length_append, List.length_singleton, List.range_succ,
      List.filter_append, hindices, List.map_append, hsegs, List.countP_append,
      List.countP_singleton, List.map_singleton, hlast]
    by_cases hm : isHistory m = true
    · simp [hm, historyAt_length]
    · simp [hm, historyAt_length]

lemma latestBefore_eq {cs : List ℕ} (hcs : cs.Pairwise (· < ·)) (latest : Option ℕ) :
    latestBefore i latest cs = ((cs.filter (· < i)).getLast?).or latest := by
  induction cs generalizing latest with
  | nil => rfl
  | cons c cs ih =>
    obtain ⟨hc, hcs⟩ := List.pairwise_cons.mp hcs
    rw [latestBefore]
    split_ifs with hlt
    · rw [ih hcs, List.filter_cons_of_pos (by simpa using hlt), List.getLast?_cons]
      cases (cs.filter (· < i)).getLast? <;> rfl
    · have hnone : cs.filter (· < i) = [] := List.filter_eq_nil_iff.mpr fun d hd => by
        have := hc d hd
        simp only [decide_eq_true_eq]
        omega
      rw [List.filter_cons_of_neg (by simpa using hlt), hnone]
      rfl

lemma latestBefore_marks (h : i ≤ messages.length) :
    latestBefore i none (markSegs messages).chIndices =
      ((List.range i).filter (historyAt messages)).getLast? := by
  have hsorted : ((List.range messages.length).filter (historyAt messages)).Pairwise (· < ·) :=
    List.pairwise_lt_range.filter _
  have hfront : ((List.range messages.length).filter (historyAt messages)).filter (· < i) =
      (List.range i).filter (historyAt messages) := by
    obtain ⟨k, hk⟩ := Nat.exists_eq_add_of_le h
    have hinside : ((List.range i).filter (historyAt messages)).filter (· < i) =
        (List.range i).filter (historyAt messages) :=
      List.filter_eq_self.mpr fun j hj => by simpa using List.mem_range.mp (List.mem_filter.mp hj).1
    have hbehind : (((List.range k).map (i + ·)).filter (historyAt messages)).filter (· < i) = [] :=
      List.filter_eq_nil_iff.mpr fun j hj => by
        obtain ⟨l, -, rfl⟩ := List.mem_map.mp (List.mem_filter.mp hj).1
        simp
    rw [hk, List.range_add, List.filter_append, List.filter_append, hinside, hbehind,
      List.append_nil]
  rw [markSegs_eq, latestBefore_eq hsorted, hfront, Option.or_none]

lemma contextIndices_succ {m : Message} (h : messages[i]? = some m) :
    contextIndices messages (markSegs messages).chIndices (i + 1) =
      if isHistory m then [i]
      else contextIndices messages (markSegs messages).chIndices i ++ [i] := by
  have hlt : i < messages.length := (List.getElem?_eq_some_iff.mp h).1
  have hat := historyAt_eq h
  rw [contextIndices, contextIndices, latestBefore_marks hlt, latestBefore_marks hlt.le,
    List.range_succ, List.filter_append]
  split_ifs with hm
  · simp [hat, hm]
  · have hnone : [i].filter (historyAt messages) = [] := by simp [hat, hm]
    rw [hnone, List.append_nil]
    have hlo : (((List.range i).filter (historyAt messages)).getLast?.map (· + 1)).getD 0 ≤ i := by
      cases hlast : ((List.range i).filter (historyAt messages)).getLast? with
      | none => simp
      | some c =>
        have hc := List.mem_range.mp (List.mem_filter.mp (List.mem_of_getLast? hlast)).1
        simpa using hc
    generalize
      (((List.range i).filter (historyAt messages)).getLast?.map (· + 1)).getD 0 = lo at hlo
    have hrange : List.range' lo (i + 1 - lo) = List.range' lo (i - lo) ++ [i] := by
      rw [Nat.succ_sub hlo, List.range'_concat, Nat.one_mul, Nat.add_sub_cancel' hlo]
    rw [hrange, List.filter_append, List.append_assoc]
    simp [hat, hm]

lemma contextIndices_eq_replay (h : i ≤ messages.length) :
    contextIndices messages (markSegs messages).chIndices i = replay messages i := by
  induction i with
  | zero =>
    rw [contextIndices, latestBefore_marks h]
    simp [replay]
  | succ i ih =>
    obtain ⟨m, hm⟩ : ∃ m, messages[i]? = some m := ⟨messages[i], List.getElem?_eq_getElem h⟩
    rw [contextIndices_succ hm, replay_succ hm, ih (by omega)]

lemma segOf_succ {m : Message} (h : messages[i]? = some m) :
    segOf messages i = (messages.take i).countP isHistory + if isHistory m then 1 else 0 := by
  rw [segOf, List.take_add_one, h, Option.toList_some, List.countP_append, List.countP_singleton]

lemma replay_spec (h : i ≤ messages.length) : (replay messages i).Pairwise (· < ·) ∧
      ∀ j ∈ replay messages i, j < i ∧ segOf messages j = (messages.take i).countP isHistory := by
  induction i with
  | zero => simp [replay]
  | succ i ih =>
    obtain ⟨m, hm⟩ : ∃ m, messages[i]? = some m := ⟨messages[i], List.getElem?_eq_getElem h⟩
    obtain ⟨hsorted, hmem⟩ := ih (by omega)
    have hown : segOf messages i = (messages.take (i + 1)).countP isHistory := rfl
    rw [replay_succ hm]
    split_ifs with hist
    · refine ⟨List.pairwise_singleton _ _, fun j hj => ?_⟩
      obtain rfl := List.mem_singleton.mp hj
      exact ⟨Nat.lt_succ_self j, hown⟩
    · have hsame : (messages.take (i + 1)).countP isHistory =
          (messages.take i).countP isHistory := by
        rw [← hown, segOf_succ hm, if_neg hist, Nat.add_zero]
      refine ⟨List.pairwise_append.mpr ⟨hsorted, List.pairwise_singleton _ _, fun j hj k hk => ?_⟩,
        fun j hj => ?_⟩
      · obtain rfl := List.mem_singleton.mp hk
        exact (hmem j hj).1
      · rcases List.mem_append.mp hj with hj | hj
        · exact ⟨(hmem j hj).1.trans (Nat.lt_succ_self i), (hmem j hj).2.trans hsame.symm⟩
        · obtain rfl := List.mem_singleton.mp hj
          exact ⟨Nat.lt_succ_self j, hown⟩

lemma segs_getElem? (h : i < messages.length) :
    (buildPerTurnContext messages).1[i]? = some (segOf messages i) := by
  rw [buildPerTurnContext, markSegs_eq]
  simp [h]

lemma turns_eq (messages : List Message) :
    (buildPerTurnContext messages).2 = (messages.zipIdx.filter fun p =>
      p.1.role = py "assistant").map
      fun p => ⟨p.2, replay messages p.2⟩ := by
  refine List.map_congr_left fun p hp => ?_
  have hget := List.mem_zipIdx_iff_getElem?.mp (List.mem_filter.mp hp).1
  rw [contextIndices_eq_replay (List.getElem?_eq_some_iff.mp hget).1.le]

lemma replay_seg {m : Message} (hget : messages[i]? = some m) (hturn : isHistory m = false) :
    ∃ seg, (buildPerTurnContext messages).1[i]? = some seg ∧
      ∀ j ∈ replay messages i, (buildPerTurnContext messages).1[j]? = some seg := by
  have hlt := (List.getElem?_eq_some_iff.mp hget).1
  have hheld := (replay_spec hlt.le).2
  refine ⟨_, segs_getElem? hlt, fun j hj => ?_⟩
  rw [segs_getElem? ((hheld j hj).1.trans hlt), (hheld j hj).2, segOf_succ hget, hturn]
  rfl

/-- Every turn's context is the one the replay holds in front of it. It is in order, lies in front
of the turn, and has its number unless the turn is itself a compression. -/
theorem per_turn_context_replays (messages : List Message) : (buildPerTurnContext messages).2 =
        ((messages.zipIdx.filter fun p => p.1.role = py "assistant").map
          fun p => ⟨p.2, replay messages p.2⟩) ∧
      ∀ t ∈ (buildPerTurnContext messages).2,
        t.contextIndices.Pairwise (· < ·) ∧ (∀ j ∈ t.contextIndices, j < t.assistantIndex) ∧
          (historyAt messages t.assistantIndex = false →
            ∃ seg, (buildPerTurnContext messages).1[t.assistantIndex]? = some seg ∧
              ∀ j ∈ t.contextIndices, (buildPerTurnContext messages).1[j]? = some seg) := by
  refine ⟨turns_eq messages, fun t ht => ?_⟩
  rw [turns_eq] at ht
  obtain ⟨p, hp, rfl⟩ := List.mem_map.mp ht
  have hget := List.mem_zipIdx_iff_getElem?.mp (List.mem_filter.mp hp).1
  obtain ⟨hsorted, hmem⟩ := replay_spec (List.getElem?_eq_some_iff.mp hget).1.le
  refine ⟨hsorted, fun j hj => (hmem j hj).1, fun hturn => replay_seg hget ?_⟩
  rwa [historyAt_eq hget] at hturn

/-- A compression that is an assistant message has a number of its own. -/
theorem assistant_history_opens_segment :
    buildPerTurnContext [⟨py "user", none⟩, ⟨py "assistant", some (py "conversation_history")⟩] =
      ([0, 1], [⟨1, [0]⟩]) := by
  decide +kernel

end AgentTrajectory.AntigravityContext
