import AgentTrajectory.PyRegex
import AgentTrajectory.TaskStitch

/-! `decompose_task` of `task_stitch.py`: a cluster is split into subrequirements by routing
each message, and those without a bot turn are then merged into the one they reply to.
The dictionaries of the source are shared objects: here a subrequirement is its place in
the order of creation, and the list the source returns is a list of places. With distinct
message ids no two of them are equal, so that `remove` and `in` go by place. -/
namespace AgentTrajectory.TaskStitch
open PyText PyDict PyRegex

inductive UserClass
  | filler
  | continuation
  | rework
  | correction
  | fresh
  deriving DecidableEq

/-- `_REWORK`. -/
def reworkWords : List PyStr :=
  [py "还是", py "仍然", py "依旧", py "还有", py "没变", py "一样", py "重新", py "没解决",
    py "没生效", py "没起作用", py "又出", py "又报", py "又不", py "怎么又"]

/-- `_CORRECTION`. -/
def correctionWords : List PyStr :=
  [py "不对", py "不是", py "别给", py "别直接", py "别跟我", py "不要", py "应该是", py "错了",
    py "搞错", py "看代码", py "看下代码", py "看下到底", py "不该"]

/-- `_FILLER`. -/
def fillerWords : List PyStr :=
  [py "hi", py "你好", py "在", py "在吗", py "在么", py "能看到吗", py "看得到吗", py "?", py "？",
    py "？？？", py "??", py "ok", py "好的", py "好", py "嗯", py "收到", py "你好？", py "在？"]

/-- `_CONT_PREFIX`. -/
def contPrefixes : List PyStr :=
  [py "那你先", py "那就先", py "你先", py "先进行", py "先跑", py "先做", py "先备份", py "先回答",
    py "先将", py "接着", py "继续", py "然后", py "那现在", py "好的那", py "那你继续"]

/-- `_CMD_RE`. -/
def commandPattern (env : Env) : Regex :=
  let digit := Regex.one fun d => (env.decimal d).isSome
  .oneOf [.litAnyCase "stop", .litAnyCase "done", .litAnyCase "parallel", .seq (.litAnyCase "q") digit,
    .seq (.litAnyCase "session") (.opt (.litAnyCase "s")), .litAnyCase "board", .litAnyCase "!", .litAnyCase "/",
    .seq (.litAnyCase "#") digit, .litAnyCase "model"]

def isCommand (env : Env) (t : PyStr) : Bool := isMatch env.isWord (commandPattern env) t

def userClass (env : Env) (text : PyStr) : UserClass :=
  let t := dropSpaces (stripFeishu env text)
  if t.isEmpty || contains (py "messagewasrecalled") (lowerAscii t) ||
      startswith t (py "ssh-ed25519") || startswith t (py "ssh-rsa") then .filler
  else if isCommand env t then .filler
  else if fillerWords.elem t || (t.length ≤ 3 && !t.any (py "怎如何为什吗么").elem) then .filler
  else if correctionWords.any fun k => contains k t then .correction
  else if reworkWords.any fun k => contains k t then .rework
  else if contPrefixes.any (startswith t) && (t.length ≤ 16 || t.getLast? == some (cp '吧')) then
    .continuation
  else .fresh

def stopBigrams : List PyStr :=
  [py "这个", py "那个", py "一下", py "一个", py "可以", py "什么", py "怎么", py "没有", py "就是",
    py "已经", py "现在", py "还是", py "仍然", py "不是", py "不对", py "还有", py "我们", py "你们",
    py "他们", py "因为", py "所以", py "但是", py "如果", py "或者", py "这样", py "那样", py "知道",
    py "觉得", py "应该", py "这里", py "那里", py "看下", py "看看", py "目前", py "然后", py "继续",
    py "先做", py "一样", py "重新", py "搞错"]

def runsFrom (p : CodePoint → Bool) (cur : PyStr) : PyStr → List PyStr
  | [] => if cur.isEmpty then [] else [cur]
  | c :: s =>
      if p c then runsFrom p (cur ++ [c]) s
      else if cur.isEmpty then runsFrom p [] s else cur :: runsFrom p [] s

/-- `re.findall("[...]{2,}", s)`. -/
def longRuns (p : CodePoint → Bool) (s : PyStr) : List PyStr :=
  (runsFrom p [] s).filter fun r => 2 ≤ r.length

def bigrams : PyStr → List PyStr
  | a :: b :: s => [a, b] :: bigrams (b :: s)
  | _ => []

def isTokenChar (c : CodePoint) : Bool :=
  (97 ≤ c.val && c.val ≤ 122) || (48 ≤ c.val && c.val ≤ 57) || c == cp '_'

def isQuote (c : CodePoint) : Bool := (py "\"'‘’“”").elem c

def isCjk (c : CodePoint) : Bool := 0x4E00 ≤ c.val && c.val ≤ 0x9FFF

/-- What the routing takes from outside: the character classes and `str.lower`. -/
structure RouteEnv where
  env : Env
  lower : PyStr → PyStr

variable (r : RouteEnv)

/-- `_terms`. -/
def termsOf (text : PyStr) : List PyStr :=
  let t := stripFeishu r.env text
  ((longRuns isTokenChar (r.lower t)).map (py "S:" ++ ·) ++
    (if (longRuns isQuote t).isEmpty then [] else [py "S:__quote__"]) ++
    (((longRuns isCjk t).flatMap bigrams).filter fun b => !stopBigrams.elem b).map
      (py "W:" ++ ·)).dedup

/-- `_score` of a message's terms against those of a subrequirement. -/
def score (et terms : List PyStr) : ℕ :=
  ((et.filter terms.elem).map fun x => if startswith x (py "S:") then 2 else 1).sum

structure Sub where
  rows : List Event
  anchor : PyStr
  rework : List Event
  corrections : List Event
  terms : List PyStr
  msgIds : List PyStr
  t0 : ℤ
  t1 : ℤ

def newSub (e : Event) : Sub :=
  ⟨[], if e.role = .user then stripFeishu r.env e.text else [], [], [], [], [], e.ts, e.ts⟩

def addRow (e : Event) (s : Sub) : Sub :=
  { s with
    rows := s.rows ++ [e]
    terms := (s.terms ++ termsOf r e.text).dedup
    msgIds := if e.msgId.isEmpty then s.msgIds else s.msgIds ++ [e.msgId]
    t0 := min s.t0 e.ts
    t1 := max s.t1 e.ts }

def noteClass (cls : UserClass) (e : Event) (s : Sub) : Sub :=
  match cls with
  | .rework => { s with rework := s.rework ++ [e] }
  | .correction => { s with corrections := s.corrections ++ [e] }
  | _ => s

def bestMatch (et : List PyStr) (subs : List Sub) : Option ℕ × ℕ :=
  subs.zipIdx.foldl (fun best s =>
    if best.2 < score et s.1.terms then (some s.2, score et s.1.terms) else best) (none, 0)

/-- `_route`: the reply edge, then the terms, then the current subrequirement. -/
def route (e : Event) (subs : List Sub) (cur : ℕ) (term : Bool) : ℕ :=
  match (if e.parentId.isEmpty then none else subs.findIdx? fun s => s.msgIds.elem e.parentId) with
  | some i => i
  | none =>
      if term then
        match bestMatch (termsOf r e.text) subs with
        | (some i, n) => if 2 ≤ n then i else cur
        | (none, _) => cur
      else cur

structure Focus where
  subs : List Sub
  cur : Option ℕ

/-- The body of the loop: a fresh user message opens a subrequirement, a bot turn follows its
reply edge and does not move the focus. -/
def routeEvent (st : Focus) (e : Event) : Focus :=
  if isNoise e.text then st
  else match e.role, st.cur with
    | .user, none => ⟨st.subs ++ [addRow r e (newSub r e)], some st.subs.length⟩
    | .user, some c =>
        let cls := userClass r.env e.text
        if cls = .fresh then ⟨st.subs ++ [addRow r e (newSub r e)], some st.subs.length⟩
        else
          let i := route r e st.subs c true
          ⟨st.subs.modify i fun s => addRow r e (noteClass cls e s), some i⟩
    | .bot, none => ⟨st.subs ++ [addRow r e (newSub r e)], none⟩
    | .bot, some c =>
        let i := route r e st.subs c false
        ⟨st.subs.modify i (addRow r e), some c⟩

def routed (cluster : List Event) : List Sub := (cluster.foldl (routeEvent r) ⟨[], none⟩).subs

def absorb (src dst : Sub) : Sub :=
  { dst with
    rows := dst.rows ++ src.rows
    rework := dst.rework ++ src.rework
    corrections := dst.corrections ++ src.corrections
    terms := (dst.terms ++ src.terms).dedup
    msgIds := (dst.msgIds ++ src.msgIds).dedup
    t0 := min dst.t0 src.t0
    t1 := max dst.t1 src.t1 }

/-- `msg_to_sub`, built before any merge. -/
def homes (subs : List Sub) : Dict PyStr ℕ :=
  ofPairs (subs.zipIdx.flatMap fun s => s.1.msgIds.map fun m => (m, s.2))

/-- Where a subrequirement without a bot turn goes: to the home of the first parent that is
not its own. -/
def mergeTarget (home : Dict PyStr ℕ) (k : ℕ) (s : Sub) : Option ℕ :=
  if s.rows.any fun e => e.role = .bot then none
  else s.rows.findSome? fun e =>
    if e.parentId.isEmpty then none else (get? home e.parentId).filter fun j => j ≠ k

structure Cleanup where
  made : List Sub
  live : List ℕ

def cleanStep (home : Dict PyStr ℕ) (st : Cleanup) (k : ℕ) : Cleanup :=
  match st.made[k]? with
  | none => st
  | some s =>
      match mergeTarget home k s with
      | none => st
      | some j => ⟨st.made.modify j (absorb s), st.live.erase k⟩

/-- The state of the cleanup before the subrequirement at place `k` is looked at. -/
def cleanedBefore (subs : List Sub) (k : ℕ) : Cleanup :=
  (List.range k).foldl (cleanStep (homes subs)) ⟨subs, List.range subs.length⟩

def finishSub (s : Sub) : Sub :=
  let rows := sortByTs s.rows
  { s with
    rows := rows
    anchor := if s.anchor.isEmpty then
        ((rows.find? fun e => !isNoise e.text).map fun e => stripFeishu r.env e.text).getD []
      else s.anchor }

def decomposeTask (cluster : List Event) : List Sub :=
  let subs := routed r cluster
  let st := cleanedBefore subs subs.length
  ((st.live.filterMap fun i => st.made[i]?).insertionSort fun a b => a.t0 ≤ b.t0).map (finishSub r)

lemma rows_addRow (e : Event) (s : Sub) : (addRow r e s).rows = s.rows ++ [e] := rfl

lemma rows_noteClass (cls : UserClass) (e : Event) (s : Sub) : (noteClass cls e s).rows = s.rows := by
  cases cls <;> rfl

lemma bestMatch_lt (et : List PyStr) (subs : List Sub) {i n : ℕ}
    (h : bestMatch et subs = (some i, n)) : i < subs.length := by
  have hfold : ∀ (l : List (Sub × ℕ)) (best : Option ℕ × ℕ), (∀ s ∈ l, s.2 < subs.length) →
      (∀ j ∈ best.1, j < subs.length) →
      ∀ j ∈ (l.foldl (fun best s =>
        if best.2 < score et s.1.terms then (some s.2, score et s.1.terms) else best) best).1,
        j < subs.length := by
    intro l
    induction l with
    | nil => exact fun best _ hb => hb
    | cons s l ih =>
      intro best hl hb
      obtain ⟨hs, hl⟩ := List.forall_mem_cons.mp hl
      rw [List.foldl_cons]
      refine ih _ hl ?_
      split_ifs
      · simpa using hs
      · exact hb
  have hidx : ∀ s ∈ subs.zipIdx, s.2 < subs.length := fun s hs => by
    simpa using List.snd_lt_of_mem_zipIdx hs
  refine hfold subs.zipIdx (none, 0) hidx (by simp) i ?_
  rw [bestMatch] at h
  simp [h]

lemma route_lt (e : Event) {subs : List Sub} {cur : ℕ} (hcur : cur < subs.length) (term : Bool) :
    route r e subs cur term < subs.length := by
  rw [route]
  split
  · next i hi =>
    split_ifs at hi
    exact (List.findIdx?_eq_some_iff_getElem.mp hi).1
  · split_ifs
    · split
      · next i n hb =>
        split_ifs
        · exact bestMatch_lt _ _ hb
        · exact hcur
      · exact hcur
    · exact hcur

structure Focus.Valid (st : Focus) : Prop where
  cur : ∀ c ∈ st.cur, c < st.subs.length
  rows : ∀ s ∈ st.subs, s.rows ≠ []

lemma modify_split {α : Type*} {l : List α} {i : ℕ} (hi : i < l.length) (f : α → α) :
    l = l.take i ++ l[i] :: l.drop (i + 1) ∧
      l.modify i f = l.take i ++ f l[i] :: l.drop (i + 1) :=
  ⟨by rw [List.getElem_cons_drop, List.take_append_drop], List.modify_eq_take_cons_drop hi⟩

lemma rows_modify_perm {subs : List Sub} {i : ℕ} (hi : i < subs.length) {f : Sub → Sub}
    {xs : List Event} (hf : ∀ s, (f s).rows = s.rows ++ xs) :
    ((subs.modify i f).flatMap Sub.rows).Perm (subs.flatMap Sub.rows ++ xs) := by
  obtain ⟨hsplit, hmod⟩ := modify_split hi f
  rw [hmod]
  conv_rhs => rw [hsplit]
  simp only [List.flatMap_append, List.flatMap_cons, hf, List.append_assoc]
  refine List.Perm.append_left _ (List.Perm.append_left _ ?_)
  exact List.perm_append_comm

lemma rows_ne_nil_modify {subs : List Sub} {f : Sub → Sub} {xs : List Event}
    (hf : ∀ s, (f s).rows = s.rows ++ xs) (h : ∀ s ∈ subs, s.rows ≠ []) (i : ℕ) :
    ∀ s ∈ subs.modify i f, s.rows ≠ [] := by
  intro s hs
  obtain ⟨k, hk⟩ := List.mem_iff_getElem?.mp hs
  rw [List.getElem?_modify, Option.map_eq_map, Option.map_eq_some_iff] at hk
  obtain ⟨s', hs', rfl⟩ := hk
  have hne := h s' (List.mem_of_getElem? hs')
  split_ifs
  · rw [hf]
    simp [hne]
  · exact hne

lemma routeEvent_spec {st : Focus} (hst : st.Valid) (e : Event) : (routeEvent r st e).Valid ∧
      ((routeEvent r st e).subs.flatMap Sub.rows).Perm
        (st.subs.flatMap Sub.rows ++ [e].filter fun e => !isNoise e.text) := by
  have hopen : ∀ cur, (∀ c ∈ cur, c < st.subs.length + 1) → isNoise e.text = false →
      Focus.Valid ⟨st.subs ++ [addRow r e (newSub r e)], cur⟩ ∧
        ((st.subs ++ [addRow r e (newSub r e)]).flatMap Sub.rows).Perm
          (st.subs.flatMap Sub.rows ++ [e].filter fun e => !isNoise e.text) := by
    intro cur hcur hnoise
    refine ⟨⟨by simpa using hcur, ?_⟩, ?_⟩
    · refine List.forall_mem_append.mpr ⟨hst.rows, by simp [rows_addRow]⟩
    · simp [rows_addRow, newSub, hnoise]
  have hjoin : ∀ (i : ℕ) (cur : Option ℕ) (f : Sub → Sub), i < st.subs.length →
      (∀ c ∈ cur, c < st.subs.length) → (∀ s, (f s).rows = s.rows ++ [e]) → isNoise e.text = false →
      Focus.Valid ⟨st.subs.modify i f, cur⟩ ∧ ((st.subs.modify i f).flatMap Sub.rows).Perm
        (st.subs.flatMap Sub.rows ++ [e].filter fun e => !isNoise e.text) := by
    intro i cur f hi hcur hf hnoise
    refine ⟨⟨by simpa using hcur, rows_ne_nil_modify hf hst.rows i⟩, ?_⟩
    simpa [hnoise] using rows_modify_perm hi hf
  rw [routeEvent]
  split_ifs with hnoise
  · exact ⟨hst, by simp [hnoise]⟩
  · rw [Bool.not_eq_true] at hnoise
    split
    · exact hopen _ (by simp) hnoise
    · next c _ hc =>
      have hlt := hst.cur c hc
      simp only
      split_ifs
      · exact hopen _ (by simp) hnoise
      · have hi := route_lt r e hlt true
        exact hjoin _ _ _ hi (by simpa using hi) (by simp [rows_addRow, rows_noteClass]) hnoise
    · exact hopen _ (by simp) hnoise
    · next c _ hc =>
      have hlt := hst.cur c hc
      exact hjoin _ _ _ (route_lt r e hlt false) (by simpa using hlt) (rows_addRow r e) hnoise

lemma routed_spec (cluster : List Event) : (∀ s ∈ routed r cluster, s.rows ≠ []) ∧
      ((routed r cluster).flatMap Sub.rows).Perm (cluster.filter fun e => !isNoise e.text) := by
  have hrun : ∀ (st : Focus), st.Valid → (cluster.foldl (routeEvent r) st).Valid ∧
      ((cluster.foldl (routeEvent r) st).subs.flatMap Sub.rows).Perm
        (st.subs.flatMap Sub.rows ++ cluster.filter fun e => !isNoise e.text) := by
    induction cluster with
    | nil => exact fun st hst => ⟨hst, by simp⟩
    | cons e es ih =>
      intro st hst
      obtain ⟨hvalid, hperm⟩ := routeEvent_spec r hst e
      obtain ⟨hvalid', hperm'⟩ := ih _ hvalid
      refine ⟨hvalid', hperm'.trans ?_⟩
      rw [← List.singleton_append, List.filter_append, ← List.append_assoc]
      exact hperm.append_right _
  obtain ⟨hvalid, hperm⟩ := hrun ⟨[], none⟩ ⟨by simp, by simp⟩
  exact ⟨hvalid.rows, hperm⟩

/-- The rows of the subrequirements still in the list. -/
def Cleanup.rows (st : Cleanup) : List Event :=
  st.live.flatMap fun i => (st.made[i]?.map Sub.rows).getD []

/-- Before step `k` the places from `k` on are in the list, and no subrequirement is empty. -/
structure Cleanup.Valid (n k : ℕ) (st : Cleanup) : Prop where
  length : st.made.length = n
  nodup : st.live.Nodup
  rest : ∀ i, k ≤ i → i < n → i ∈ st.live
  rows : ∀ s ∈ st.made, s.rows ≠ []

lemma flatMap_extend_perm {f : ℕ → List Event} {xs : List Event} {j : ℕ} {l : List ℕ} (hl : l.Nodup)
    (hj : j ∈ l) :
    (l.flatMap fun i => if i = j then f i ++ xs else f i).Perm (l.flatMap f ++ xs) := by
  obtain ⟨a, b, rfl⟩ := List.append_of_mem hj
  have hab := List.nodup_middle.mp hl
  obtain ⟨hnot, -⟩ := List.nodup_cons.mp hab
  have hother : ∀ l' : List ℕ, (∀ i ∈ l', i ≠ j) →
      (l'.flatMap fun i => if i = j then f i ++ xs else f i) = l'.flatMap f := by
    intro l' hl'
    exact List.flatMap_congr fun i hi => if_neg (hl' i hi)
  rw [List.flatMap_append, List.flatMap_cons, List.flatMap_append, List.flatMap_cons, if_pos rfl,
    hother a fun i hi he => hnot (by simp [← he, hi]),
    hother b fun i hi he => hnot (by simp [← he, hi])]
  simp only [List.append_assoc]
  refine List.Perm.append_left _ (List.Perm.append_left _ ?_)
  exact List.perm_append_comm

lemma mergeTarget_spec {home : Dict PyStr ℕ} {k j : ℕ} {s : Sub} (h : mergeTarget home k s = some j) :
    j ≠ k ∧ ∃ m, get? home m = some j := by
  rw [mergeTarget] at h
  split_ifs at h
  obtain ⟨e, -, he⟩ := List.exists_of_findSome?_eq_some h
  split_ifs at he
  obtain ⟨hget, hne⟩ := Option.filter_eq_some_iff.mp he
  exact ⟨of_decide_eq_true hne, _, hget⟩

lemma rows_merge {made : List Sub} {live : List ℕ} {s : Sub} {j : ℕ} (hj : j < made.length) :
    Cleanup.rows ⟨made.modify j (absorb s), live⟩ =
      live.flatMap fun i => if i = j then (made[i]?.map Sub.rows).getD [] ++ s.rows
        else (made[i]?.map Sub.rows).getD [] := by
  refine List.flatMap_congr fun i _ => ?_
  simp only [List.getElem?_modify, Option.map_eq_map, Option.map_map]
  by_cases hij : i = j
  · subst hij
    simp [List.getElem?_eq_getElem hj, absorb]
  · simp [hij, Ne.symm hij, Function.comp_def]

lemma cleanStep_spec {home : Dict PyStr ℕ} {n k : ℕ} {st : Cleanup} (hst : st.Valid n k) (hk : k < n)
    (hhome : ∀ m j, get? home m = some j → j < n) :
    (cleanStep home st k).Valid n (k + 1) ∧
      ((∀ s j, st.made[k]? = some s → mergeTarget home k s = some j → j ∈ st.live) →
        (cleanStep home st k).rows.Perm st.rows) ∧
      ((∃ s j, st.made[k]? = some s ∧ mergeTarget home k s = some j ∧ j ∉ st.live) →
        (cleanStep home st k).rows.length < st.rows.length) := by
  have hlt : k < st.made.length := hst.length ▸ hk
  have hs := List.getElem?_eq_getElem hlt
  have hne : st.made[k].rows ≠ [] := hst.rows _ (List.getElem_mem hlt)
  generalize st.made[k] = s at hs hne
  simp only [cleanStep, hs, Option.some.injEq]
  cases hm : mergeTarget home k s with
  | none =>
    refine ⟨⟨hst.length, hst.nodup, fun i hi => hst.rest i (by omega), hst.rows⟩, fun _ => .refl _, ?_⟩
    rintro ⟨s', j, rfl, hj, -⟩
    rw [hm] at hj
    cases hj
  | some j =>
    obtain ⟨hjk, m, hget⟩ := mergeTarget_spec hm
    have hj : j < st.made.length := hst.length ▸ hhome m j hget
    have hlive := List.perm_cons_erase (hst.rest k le_rfl hk)
    have hrows : st.rows.Perm (s.rows ++
        (st.live.erase k).flatMap fun i => (st.made[i]?.map Sub.rows).getD []) := by
      refine (hlive.flatMap_right _).trans ?_
      rw [List.flatMap_cons, hs]
      exact .refl _
    refine ⟨⟨by simpa using hst.length, hst.nodup.erase k, fun i hi hin => ?_,
      rows_ne_nil_modify (fun _ => rfl) hst.rows j⟩, fun hok => ?_, ?_⟩
    · exact (List.mem_erase_of_ne (by omega)).mpr (hst.rest i (by omega) hin)
    · have hmem := (List.mem_erase_of_ne hjk).mpr (hok s j rfl hm)
      rw [rows_merge hj]
      refine (flatMap_extend_perm (hst.nodup.erase k) hmem).trans ?_
      exact List.perm_append_comm.trans hrows.symm
    · rintro ⟨s', j', rfl, hm', hdead⟩
      obtain rfl := Option.some.inj (hm.symm.trans hm')
      have hsame : (st.live.erase k).flatMap (fun i => if i = j
          then (st.made[i]?.map Sub.rows).getD [] ++ s.rows else (st.made[i]?.map Sub.rows).getD []) =
          (st.live.erase k).flatMap fun i => (st.made[i]?.map Sub.rows).getD [] :=
        List.flatMap_congr fun i hi => if_neg fun he : i = j =>
          hdead (he ▸ List.mem_of_mem_erase hi)
      rw [rows_merge hj, hsame, hrows.length_eq, List.length_append]
      exact Nat.lt_add_of_pos_left (List.length_pos_of_ne_nil hne)

lemma homes_lt {subs : List Sub} {m : PyStr} {j : ℕ} (h : get? (homes subs) m = some j) :
    j < subs.length := by
  obtain ⟨s, hs, hmem⟩ := List.mem_flatMap.mp (mem_of_get?_ofPairs h)
  obtain ⟨m', -, he⟩ := List.mem_map.mp hmem
  obtain ⟨-, rfl⟩ := Prod.mk.inj he
  simpa using List.snd_lt_of_mem_zipIdx hs

/-- The merge at place `k` goes into a subrequirement that is still in the list. -/
def MergesLive (subs : List Sub) (k : ℕ) : Prop :=
  ∀ s j, (cleanedBefore subs k).made[k]? = some s → mergeTarget (homes subs) k s = some j →
    j ∈ (cleanedBefore subs k).live

lemma cleanedBefore_succ (subs : List Sub) (k : ℕ) :
    cleanedBefore subs (k + 1) = cleanStep (homes subs) (cleanedBefore subs k) k := by
  rw [cleanedBefore, List.range_succ, List.foldl_append]
  rfl

/-- The run of the cleanup: rows are never gained, and kept exactly when every merge so far
went into a subrequirement of the list. -/
lemma cleanedBefore_spec {subs : List Sub} (hsubs : ∀ s ∈ subs, s.rows ≠ []) {k : ℕ}
    (hk : k ≤ subs.length) :
    (cleanedBefore subs k).Valid subs.length k ∧
      ((∀ i < k, MergesLive subs i) →
        (cleanedBefore subs k).rows.Perm (subs.flatMap Sub.rows)) ∧
      (cleanedBefore subs k).rows.length ≤ (subs.flatMap Sub.rows).length ∧
      ((cleanedBefore subs k).rows.length = (subs.flatMap Sub.rows).length →
        ∀ i < k, MergesLive subs i) := by
  induction k with
  | zero =>
    have hrows : (cleanedBefore subs 0).rows = subs.flatMap Sub.rows := by
      rw [cleanedBefore, List.range_zero, List.foldl_nil, Cleanup.rows, List.flatMap_def,
        List.flatMap_def]
      congr 1
      refine List.ext_getElem (by simp) fun i hi hi' => ?_
      have hlt : i < subs.length := by simpa using hi'
      simp [List.getElem?_eq_getElem hlt]
    refine ⟨⟨rfl, List.nodup_range, fun i _ hi => List.mem_range.mpr hi, hsubs⟩, fun _ => ?_, ?_,
      fun _ i hi => absurd hi (by omega)⟩
    · rw [hrows]
    · rw [hrows]
  | succ k ih =>
    obtain ⟨hvalid, hperm, hle, heq⟩ := ih (by omega)
    obtain ⟨hvalid', hkeep, hlose⟩ := cleanStep_spec hvalid (by omega) fun m j => homes_lt
    rw [cleanedBefore_succ]
    have hdec : ¬ MergesLive subs k →
        (cleanStep (homes subs) (cleanedBefore subs k) k).rows.length <
          (cleanedBefore subs k).rows.length := by
      intro hnot
      refine hlose ?_
      simp only [MergesLive, not_forall] at hnot
      obtain ⟨s, j, hs, hm, hdead⟩ := hnot
      exact ⟨s, j, hs, hm, hdead⟩
    refine ⟨hvalid', fun hall => ?_, ?_, fun hlen => ?_⟩
    · exact (hkeep (hall k (by omega))).trans (hperm fun i hi => hall i (by omega))
    · by_cases hlive : MergesLive subs k
      · rw [(hkeep hlive).length_eq]
        exact hle
      · exact (hdec hlive).le.trans hle
    · have hlive : MergesLive subs k := by
        by_contra hnot
        have := hdec hnot
        omega
      rw [(hkeep hlive).length_eq] at hlen
      intro i hi
      rcases Nat.lt_succ_iff_lt_or_eq.mp hi with hi | rfl
      · exact heq hlen i hi
      · exact hlive

lemma decomposeTask_rows (cluster : List Event) : ((decomposeTask r cluster).flatMap Sub.rows).Perm
      (cleanedBefore (routed r cluster) (routed r cluster).length).rows := by
  generalize hst : cleanedBefore (routed r cluster) (routed r cluster).length = st
  have hfinish : ∀ l : List Sub, ((l.map (finishSub r)).flatMap Sub.rows).Perm (l.flatMap Sub.rows) := by
    intro l
    rw [List.flatMap_map]
    exact List.Perm.flatMap_left _ fun s _ => sortByTs_perm s.rows
  have hrows : (st.live.filterMap fun i => st.made[i]?).flatMap Sub.rows = st.rows := by
    rw [Cleanup.rows, List.filterMap_eq_flatMap_toList, List.flatMap_assoc]
    refine List.flatMap_congr fun i _ => ?_
    cases st.made[i]? <;> simp
  rw [← hrows, decomposeTask]
  simp only [hst]
  exact (hfinish _).trans ((List.perm_insertionSort _ _).flatMap_right _)

/-- The subrequirements hold every message that is no noise exactly once, exactly when no
merge of the cleanup goes into a subrequirement that has itself been merged away before. -/
theorem decomposeTask_conserves_iff (cluster : List Event) :
    ((decomposeTask r cluster).flatMap Sub.rows).Perm (cluster.filter fun e => !isNoise e.text) ↔
      ∀ k < (routed r cluster).length, MergesLive (routed r cluster) k := by
  obtain ⟨hne, hrouted⟩ := routed_spec r cluster
  obtain ⟨-, hperm, -, heq⟩ := cleanedBefore_spec hne (le_refl (routed r cluster).length)
  have hrows := decomposeTask_rows r cluster
  constructor
  · intro h
    exact heq ((hrows.symm.trans h).trans hrouted.symm).length_eq
  · intro h
    exact (hrows.trans (hperm h)).trans hrouted

def asciiRoute : RouteEnv := ⟨asciiEnv, lowerAscii⟩

def followUp : Event := ⟨1010000, .user, py "m3", py "m1", py "also update the docs"⟩
def secondFollowUp : Event := ⟨1020000, .user, py "m4", py "m3", py "and write the changelog"⟩

/-- The second follow-up goes into the first one after that has been merged away. -/
theorem second_follow_up_lost : [ask, reply, followUp, secondFollowUp].Pairwise tsLe ∧
      ([ask, reply, followUp, secondFollowUp].map Event.msgId).Nodup ∧
      (∀ e ∈ [ask, reply, followUp, secondFollowUp], e.msgId ≠ [] ∧ isNoise e.text = false) ∧
      (decomposeTask asciiRoute [ask, reply, followUp, secondFollowUp]).map Sub.rows =
        [[ask, reply, followUp]] := by
  decide +kernel

end AgentTrajectory.TaskStitch
