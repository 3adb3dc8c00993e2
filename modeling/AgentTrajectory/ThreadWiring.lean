import AgentTrajectory.ThreadExport
import AgentTrajectory.Acyclic
import AgentTrajectory.RelatedLists

/-! The parent edges of `_classify_and_wire`. The loop hands out the dispatch points one
thread at a time, so that each point is claimed once; whether the edges form a cycle, and
whether a thread gets a point with its own text, depends on what was claimed before it. -/
namespace AgentTrajectory.ExportContext
open PyText PyJson PyValue PyDict RelatedLists

variable {pts : List Point} {threads : List Draft}

/-- `norm` of a thread's first user body. -/
def bodyOf (th : Draft) : PyStr := dropSpaces th.joinKey

def pointFor (pts : List Point) (th : Draft) : Option ℕ :=
  if (bodyOf th).isEmpty then none else claim (bodyOf th) pts

def markUsed (pts : List Point) : Option ℕ → List Point
  | none => pts
  | some i => pts.modify i fun p => { p with used := true }

/-- The place of the point of every thread. -/
def wirePoints : List Point → List Draft → List (Option ℕ)
  | _, [] => []
  | pts, th :: rest => pointFor pts th :: wirePoints (markUsed pts (pointFor pts th)) rest

/-- The points as the loop leaves them after some threads. -/
def pointsAfter (pts : List Point) (threads : List Draft) : List Point :=
  threads.foldl (fun pts th => markUsed pts (pointFor pts th)) pts

lemma wirePoints_append (pts : List Point) (xs ys : List Draft) :
    wirePoints pts (xs ++ ys) = wirePoints pts xs ++ wirePoints (pointsAfter pts xs) ys := by
  induction xs generalizing pts with
  | nil => rfl
  | cons x xs ih => simp [wirePoints, pointsAfter, ih]

lemma mem_zip_wirePoints {q : Draft × Option ℕ} :
    q ∈ threads.zip (wirePoints pts threads) ↔ ∃ before after,
      threads = before ++ q.1 :: after ∧ q.2 = pointFor (pointsAfter pts before) q.1 := by
  induction threads generalizing pts with
  | nil => simp
  | cons th rest ih =>
    rw [wirePoints, List.zip_cons_cons, List.mem_cons, ih]
    constructor
    · rintro (rfl | ⟨before, after, rfl, hq⟩)
      · exact ⟨[], rest, rfl, rfl⟩
      · exact ⟨th :: before, after, rfl, hq⟩
    · rintro ⟨before, after, hsplit, hq⟩
      cases before with
      | nil =>
        obtain ⟨rfl, rfl⟩ := List.cons.inj hsplit
        exact .inl (Prod.ext rfl hq)
      | cons x before =>
        obtain ⟨rfl, rfl⟩ := List.cons.inj hsplit
        exact .inr ⟨before, after, rfl, hq⟩

lemma wirePoints_length (pts : List Point) (threads : List Draft) :
    (wirePoints pts threads).length = threads.length := by
  induction threads generalizing pts with
  | nil => rfl
  | cons th rest ih => simp [wirePoints, ih]

lemma getElem?_markUsed {β : Type*} (f : Point → β) (hf : ∀ p, f { p with used := true } = f p)
    (pts : List Point) (i : Option ℕ) (j : ℕ) : (markUsed pts i)[j]?.map f = pts[j]?.map f := by
  cases i with
  | none => rfl
  | some i =>
    rw [markUsed, List.getElem?_modify, Option.map_eq_map, Option.map_map]
    congr 1
    funext p
    simp only [Function.comp_apply]
    split_ifs
    · exact hf p
    · rfl

lemma getElem?_pointsAfter {β : Type*} (f : Point → β) (hf : ∀ p, f { p with used := true } = f p)
    (pts : List Point) (threads : List Draft) (j : ℕ) :
    (pointsAfter pts threads)[j]?.map f = pts[j]?.map f := by
  induction threads generalizing pts with
  | nil => rfl
  | cons th rest ih =>
    rw [pointsAfter, List.foldl_cons]
    exact (ih _).trans (getElem?_markUsed f hf pts _ j)

def parentAt (pts : List Point) (i : Option ℕ) : Option (PyStr × Json × PyStr) :=
  i.bind fun i => pts[i]?.map parentOf

lemma wire_eq (pts : List Point) (threads : List Draft) :
    wire pts threads = (wirePoints pts threads).map (parentAt pts) := by
  induction threads generalizing pts with
  | nil => rfl
  | cons th rest ih =>
    have hat : ∀ i, parentAt (markUsed pts i) = parentAt pts := by
      intro i
      funext j
      cases j with
      | none => rfl
      | some j => exact getElem?_markUsed parentOf (fun _ => rfl) pts i j
    have hfor : (if (dropSpaces th.joinKey).isEmpty then none else
      claim (dropSpaces th.joinKey) pts) =
        pointFor pts th := rfl
    rw [wire, wirePoints, List.map_cons, ← hat (pointFor pts th), ← ih]
    simp only [hfor]
    cases pointFor pts th with
    | none => rfl
    | some i =>
      rw [hat]
      rfl

def Overlap (body prompt : PyStr) : Prop := body <:+: prompt ∨ prompt <:+: body

/-- The point at `i` is unclaimed and its prompt is one that is looked for. -/
def Free (pts : List Point) (P : PyStr → Prop) (i : ℕ) :
    Prop := ∃ p, pts[i]? = some p ∧ p.used = false ∧ P p.norm

def FirstFree (pts : List Point) (P : PyStr → Prop) (i : ℕ) :
    Prop := Free pts P i ∧ ∀ j < i, ¬ Free pts P j

/-- A body takes the first unclaimed prompt that is equal to it or, where no unclaimed prompt is,
the first that overlaps it. -/
def Takes (pts : List Point) (body : PyStr) (i : ℕ) : Prop :=
  body ≠ [] ∧ (FirstFree pts (· = body) i ∨ (∀ j, ¬ Free pts (· = body) j) ∧
    FirstFree pts (Overlap body) i)

lemma findIdx?_free (pts : List Point) (q : PyStr → Bool) (P : PyStr → Prop)
    (hq : ∀ n, q n = true ↔ P n) :
    (∀ i, (pts.findIdx? fun p => !p.used && q p.norm) = some i ↔ FirstFree pts P i) ∧
      ((pts.findIdx? fun p => !p.used && q p.norm) = none ↔ ∀ j, ¬ Free pts P j) := by
  have hfree {j : ℕ} (hj : j < pts.length) : (!pts[j].used && q pts[j].norm) =
      true ↔ Free pts P j := by
    simp [Free, List.getElem?_eq_getElem hj, ← hq]
  have hlt {j : ℕ} (h : Free pts P j) : j < pts.length := by
    obtain ⟨p, hp, -⟩ := h
    exact (List.getElem?_eq_some_iff.mp hp).1
  refine ⟨fun i => ?_, ?_⟩
  · rw [List.findIdx?_eq_some_iff_getElem]
    constructor
    · rintro ⟨hi, hp, hbefore⟩
      exact ⟨(hfree hi).mp hp, fun j hj h => hbefore j hj ((hfree (hj.trans hi)).mpr h)⟩
    · rintro ⟨hi, hbefore⟩
      exact ⟨hlt hi, (hfree (hlt hi)).mpr hi, fun j hj h =>
        hbefore j hj ((hfree (hj.trans (hlt hi))).mp h)⟩
  · rw [List.findIdx?_eq_none_iff]
    constructor
    · intro h j hj
      have hlt := hlt hj
      exact absurd ((hfree hlt).mpr hj) (by simp [h pts[j] (List.getElem_mem hlt)])
    · intro h p hp
      obtain ⟨j, hj, rfl⟩ := List.getElem_of_mem hp
      exact Bool.eq_false_iff.mpr fun hfound => h j ((hfree hj).mp hfound)

lemma pointFor_iff_takes {th : Draft} {i : ℕ} :
    pointFor pts th = some i ↔ Takes pts (bodyOf th) i := by
  have hequal := findIdx?_free pts (· == bodyOf th) (· = bodyOf th) (by simp)
  have hover := findIdx?_free pts (fun n => contains (bodyOf th) n || contains n (bodyOf th))
    (Overlap (bodyOf th))
    (by simp [Overlap, contains_iff])
  rw [pointFor, Takes]
  by_cases hbody : bodyOf th = []
  · simp [hbody]
  · rw [if_neg (by simpa using hbody), claim, Option.or_eq_some_iff, hequal.1, hequal.2, hover.1]
    exact (and_iff_right hbody).symm

lemma Takes.overlap {body : PyStr} {i : ℕ} (h : Takes pts body i) : Free pts (Overlap body) i := by
  rcases h.2 with ⟨⟨p, hp, hused, hnorm⟩, -⟩ | ⟨-, hi, -⟩
  · exact ⟨p, hp, hused, .inl (hnorm ▸ List.infix_refl p.norm)⟩
  · exact hi

lemma pointFor_spec {th : Draft} {i : ℕ} (h : pointFor pts th = some i) :
    ∃ p, pts[i]? = some p ∧ p.used = false := by
  obtain ⟨p, hp, hused, -⟩ := (pointFor_iff_takes.mp h).overlap
  exact ⟨p, hp, hused⟩

lemma unused_of_markUsed {i : Option ℕ} {j : ℕ}
    (h : ∃ p, (markUsed pts i)[j]? = some p ∧ p.used = false) :
    i ≠ some j ∧ ∃ p, pts[j]? = some p ∧ p.used = false := by
  obtain ⟨p, hp, hused⟩ := h
  cases i with
  | none => exact ⟨by simp, p, hp, hused⟩
  | some i =>
    rw [markUsed, List.getElem?_modify, Option.map_eq_map, Option.map_eq_some_iff] at hp
    obtain ⟨p', hp', rfl⟩ := hp
    by_cases hij : i = j
    · simp [hij] at hused
    · rw [if_neg hij] at hused
      exact ⟨by simpa using hij, p', hp', hused⟩

lemma unused_of_mem_wirePoints {j : ℕ}
    (h : some j ∈ wirePoints pts threads) : ∃ p, pts[j]? = some p ∧ p.used = false := by
  induction threads generalizing pts with
  | nil => simp [wirePoints] at h
  | cons th rest ih =>
    rcases List.mem_cons.mp h with h | h
    · exact pointFor_spec h.symm
    · exact (unused_of_markUsed (ih h)).2

lemma wirePoints_nodup (pts : List Point) (threads : List Draft) :
    (wirePoints pts threads).reduceOption.Nodup := by
  induction threads generalizing pts with
  | nil => simp [wirePoints]
  | cons th rest ih =>
    rw [wirePoints]
    cases hi : pointFor pts th with
    | none => simpa using ih _
    | some i =>
      rw [List.reduceOption_cons_of_some, List.nodup_cons]
      refine ⟨fun hmem => ?_, ih _⟩
      have hlater := unused_of_mem_wirePoints (List.reduceOption_mem_iff.mp hmem)
      exact (unused_of_markUsed hlater).1 rfl

/-- The parent of a thread in the result, by thread ids. -/
def IsParent (wired : List (Draft × Kind × Option (PyStr × Json × PyStr))) (a b : PyStr) : Prop :=
  ∃ w ∈ wired, w.1.threadId = a ∧ ∃ parent, w.2.2 = some parent ∧ parent.1 = b

def parentEdges (pts : List Point) (threads : List Draft) : List (PyStr × PyStr) :=
  (threads.zip (wirePoints pts threads)).filterMap fun q =>
    (parentAt pts q.2).map fun parent => (q.1.threadId, parent.1)

def nextEdge (pts : List Point) (before : List Draft) (th : Draft) : Option (PyStr × PyStr) :=
  (parentAt pts (pointFor (pointsAfter pts before) th)).map fun parent => (th.threadId, parent.1)

lemma parentEdges_concat (pts : List Point) (threads : List Draft) (th : Draft) :
    parentEdges pts (threads ++ [th]) = parentEdges pts threads ++
      (nextEdge pts threads th).toList := by
  rw [parentEdges, wirePoints_append,
    List.zip_append (by rw [wirePoints_length]), List.filterMap_append]
  congr 1

lemma nextEdge_eq_some_iff {before : List Draft} {th : Draft} {a b : PyStr} :
    nextEdge pts before th = some (a, b) ↔ a = th.threadId ∧
      ∃ i p, pointFor (pointsAfter pts before) th = some i ∧ pts[i]? = some p ∧ p.threadId = b := by
  rw [nextEdge, Option.map_eq_some_iff]
  constructor
  · rintro ⟨parent, hat, he⟩
    obtain ⟨i, hi, hp⟩ := Option.bind_eq_some_iff.mp hat
    obtain ⟨p, hpi, rfl⟩ := Option.map_eq_some_iff.mp hp
    obtain ⟨rfl, rfl⟩ := Prod.mk.inj he
    exact ⟨rfl, i, p, hi, hpi, rfl⟩
  · rintro ⟨rfl, i, p, hi, hp, rfl⟩
    exact ⟨parentOf p, by rw [parentAt, hi, Option.bind_some, hp, Option.map_some], rfl⟩

/-- The body of thread `a`, one of those reached so far, took a prompt of thread `b`. -/
def TookFrom (pts : List Point) (threads : List Draft) (a b : PyStr) : Prop :=
  ∃ before th after i p, threads = before ++ th :: after ∧ th.threadId = a ∧
    Takes (pointsAfter pts before) (bodyOf th) i ∧ pts[i]? = some p ∧ p.threadId = b

lemma mem_parentEdges {a b : PyStr} :
    (a, b) ∈ parentEdges pts threads ↔ TookFrom pts threads a b := by
  rw [parentEdges, List.mem_filterMap]
  constructor
  · rintro ⟨q, hq, he⟩
    obtain ⟨before, after, hsplit, hpoint⟩ := mem_zip_wirePoints.mp hq
    rw [hpoint] at he
    obtain ⟨hid, i, p, hi, hp, hb⟩ := nextEdge_eq_some_iff.mp he
    exact ⟨before, q.1, after, i, p, hsplit, hid.symm, pointFor_iff_takes.mp hi, hp, hb⟩
  · rintro ⟨before, th, after, i, p, hsplit, rfl, htakes, hp, rfl⟩
    exact ⟨(th, _), mem_zip_wirePoints.mpr ⟨before, after, hsplit, rfl⟩,
      nextEdge_eq_some_iff.mpr ⟨rfl, i, p, pointFor_iff_takes.mpr htakes, hp, rfl⟩⟩

lemma forall_splits_concat {α : Type} {P : List α → α → Prop} {xs : List α} {a : α} :
    (∀ before x after, xs ++ [a] = before ++ x :: after → P before x) ↔
      (∀ before x after, xs = before ++ x :: after → P before x) ∧ P xs a := by
  constructor
  · intro h
    exact ⟨fun before x after hx => h before x (after ++ [a]) (by simp [hx]), h xs a [] rfl⟩
  · rintro ⟨hearlier, hlast⟩ before x after hx
    rcases List.eq_nil_or_concat after with rfl | ⟨after', y, rfl⟩
    · obtain ⟨rfl, hxy⟩ := List.append_inj' hx rfl
      obtain rfl := List.singleton_injective hxy
      exact hlast
    · rw [List.concat_eq_append, ← List.cons_append, ← List.append_assoc] at hx
      exact hearlier before x after' (List.append_inj' hx rfl).1

lemma acyclic_parentEdges_iff (pts : List Point) (threads : List Draft) :
    Acyclic (fun a b => (a, b) ∈ parentEdges pts threads) ↔
      ∀ before th after, threads = before ++ th :: after →
        ∀ i p, pointFor (pointsAfter pts before) th = some i → pts[i]? = some p →
          ¬ Relation.ReflTransGen (fun a b => (a, b) ∈ parentEdges pts before) p.threadId
            th.threadId := by
  induction threads using List.reverseRecOn with
  | nil =>
    refine iff_of_true (fun a h => ?_) (by simp)
    obtain ⟨b, hb, -⟩ := Relation.TransGen.head'_iff.mp h
    simp [parentEdges] at hb
  | append_singleton threads th ih =>
    rw [forall_splits_concat, ← ih, parentEdges_concat]
    cases hedge : nextEdge pts threads th with
    | none =>
      simp only [Option.toList_none, List.append_nil]
      refine ⟨fun h => ⟨h, fun i p hi hp => ?_⟩, And.left⟩
      have := nextEdge_eq_some_iff.mpr ⟨rfl, i, p, hi, hp, rfl⟩
      rw [hedge] at this
      cases this
    | some e =>
      obtain ⟨a, b⟩ := e
      obtain ⟨rfl, i, p, hi, hp, rfl⟩ := nextEdge_eq_some_iff.mp hedge
      have hrel : (fun x y => (x, y) ∈ parentEdges pts threads ++ [(th.threadId, p.threadId)]) =
          WithEdge (fun x y => (x, y) ∈ parentEdges pts threads) th.threadId p.threadId := by
        funext x y
        simp [WithEdge]
      rw [Option.toList_some, hrel, acyclic_withEdge_iff]
      refine and_congr_right fun _ => ⟨fun h j q hj hq => ?_, fun h => h i p hi hp⟩
      obtain rfl := Option.some.inj (hi.symm.trans hj)
      obtain rfl := Option.some.inj (hp.symm.trans hq)
      exact h

lemma classifyAndWire_eq
    (hpts : dispatchPoints threads = .ok pts) :
    ∃ wired, classifyAndWire threads = .ok wired ∧ wired.map (fun w => w.1) = threads ∧
      wired.map (fun w => w.2.2) = (wirePoints pts threads).map (parentAt pts) ∧
      ∀ w ∈ wired, w.2.1 = .subagent ↔ w.2.2.isSome := by
  refine ⟨_, by rw [classifyAndWire, hpts]; rfl, ?_, ?_, ?_⟩
  · rw [List.map_map]
    exact List.map_fst_zip (wire_length pts threads).ge
  · rw [List.map_map, ← wire_eq]
    exact List.map_snd_zip (wire_length pts threads).le
  · intro w hw
    obtain ⟨q, -, rfl⟩ := List.mem_map.mp hw
    simp only [kindOf]
    split_ifs <;> simp_all

lemma isParent_iff
    {wired : List (Draft × Kind × Option (PyStr × Json × PyStr))}
    (hfst : wired.map (fun w => w.1) = threads)
    (hparents : wired.map (fun w => w.2.2) = (wirePoints pts threads).map (parentAt pts))
    (a b : PyStr) :
    IsParent wired a b ↔ (a, b) ∈ parentEdges pts threads := by
  have hedges : parentEdges pts threads =
      wired.filterMap fun w => w.2.2.map fun parent => (w.1.threadId, parent.1) := by
    have hzip : threads.zip ((wirePoints pts threads).map (parentAt pts)) =
        wired.map fun w => (w.1, w.2.2) := by
      rw [← hparents, ← hfst, List.zip_map']
    rw [List.zip_map_right] at hzip
    have hmap := congrArg (List.filterMap fun q : Draft × Option (PyStr × Json × PyStr) =>
      q.2.map fun parent => (q.1.threadId, parent.1)) hzip
    rw [List.filterMap_map, List.filterMap_map] at hmap
    exact hmap
  rw [hedges, List.mem_filterMap]
  simp only [IsParent, Option.map_eq_some_iff, Prod.mk.injEq]
  constructor
  · rintro ⟨w, hw, ha, parent, hp, hb⟩
    exact ⟨w, hw, parent, hp, ha, hb⟩
  · rintro ⟨w, hw, parent, hp, ha, hb⟩
    exact ⟨w, hw, ha, parent, hp, hb⟩

/-- Every thread has a kind, each dispatch point is used once, and no thread is its own ancestor. -/
def WellWired (threads : List Draft) : Prop :=
  ∃ pts wired, dispatchPoints threads = .ok pts ∧ classifyAndWire threads = .ok wired ∧
    (wired.map (fun w => w.1) = threads ∧ ∀ w ∈ wired, w.2.1 = .subagent ↔ w.2.2.isSome) ∧
    (∃ points : List (Option ℕ), wired.map (fun w => w.2.2) = points.map (parentAt pts) ∧
      points.reduceOption.Nodup ∧ ∀ i, some i ∈ points → i < pts.length) ∧
    Acyclic (IsParent wired)

/-- The body of thread `a` overlaps a prompt of thread `b`. -/
def BodyOverlaps (pts : List Point) (threads : List Draft) (a b : PyStr) : Prop :=
  ∃ th ∈ threads, th.threadId = a ∧ ∃ p ∈ pts, p.threadId = b ∧ Overlap (bodyOf th) p.norm

lemma TookFrom.overlaps {a b : PyStr} (h : TookFrom pts threads a b) :
    BodyOverlaps pts threads a b := by
  obtain ⟨before, th, after, i, p, rfl, ha, htakes, hp, hb⟩ := h
  obtain ⟨p', hp', -, hover⟩ := htakes.overlap
  have hnorm := getElem?_pointsAfter Point.norm (fun _ => rfl) pts before i
  rw [hp', hp, Option.map_some, Option.map_some, Option.some.injEq] at hnorm
  exact ⟨th, by simp, ha, p, List.mem_of_getElem? hp, hb, hnorm ▸ hover⟩

/-- The wiring is right exactly when the dispatch points can be read and no body, as its thread is
reached, takes a prompt of a thread whose body, directly or over others, took one of its own. This
is so where the bodies and prompts overlap in no circle. -/
theorem wiring_acyclic_iff (threads : List Draft) :
    (WellWired threads ↔ ∃ pts, dispatchPoints threads = .ok pts ∧
      ∀ before th after, threads = before ++ th :: after →
        ∀ i p, Takes (pointsAfter pts before) (bodyOf th) i → pts[i]? = some p →
          ¬ Relation.ReflTransGen (TookFrom pts before) p.threadId th.threadId) ∧
    ∀ pts, dispatchPoints threads = .ok pts →
    Acyclic (BodyOverlaps pts threads) → WellWired threads := by
  -- the parents in the result are the edges that the loop made
  have hacyclic : ∀ {pts wired}, wired.map (fun w => w.1) = threads →
      wired.map (fun w => w.2.2) = (wirePoints pts threads).map (parentAt pts) →
      (Acyclic (IsParent wired) ↔ Acyclic fun a b => (a, b) ∈ parentEdges pts threads) := by
    intro pts wired hfst hparents
    rw [show IsParent wired = fun a b => (a, b) ∈ parentEdges pts threads from
      funext fun a => funext fun b => propext (isParent_iff hfst hparents a b)]
  have hwell : ∀ {pts}, dispatchPoints threads = .ok pts →
      Acyclic (fun a b => (a, b) ∈ parentEdges pts threads) →
        WellWired threads := by
    intro pts hpts h
    obtain ⟨wired, hwired, hfst, hparents, hkinds⟩ := classifyAndWire_eq hpts
    refine ⟨pts, wired, hpts, hwired, ⟨hfst, hkinds⟩, ⟨wirePoints pts threads, hparents,
      wirePoints_nodup pts threads, fun i hi => ?_⟩, (hacyclic hfst hparents).mpr h⟩
    obtain ⟨p, hp, -⟩ := unused_of_mem_wirePoints hi
    exact (List.getElem?_eq_some_iff.mp hp).1
  have htook (pts : List Point) (threads : List Draft) :
      TookFrom pts threads = fun a b => (a, b) ∈ parentEdges pts threads :=
    funext fun a => funext fun b => propext mem_parentEdges.symm
  simp only [htook, ← pointFor_iff_takes, ← acyclic_parentEdges_iff]
  refine ⟨⟨?_, ?_⟩, fun pts hpts h =>
    hwell hpts (h.mono fun a b hab => (mem_parentEdges.mp hab).overlaps)⟩
  · rintro ⟨pts, wired, hpts, hwired, -, -, h⟩
    obtain ⟨wired', hwired', hfst, hparents, -⟩ := classifyAndWire_eq hpts
    obtain rfl := Except.ok.inj (hwired.symm.trans hwired')
    exact ⟨pts, hpts, (hacyclic hfst hparents).mp h⟩
  · rintro ⟨pts, hpts, h⟩
    exact hwell hpts h

def noReply : Captured := ⟨.null, .null, ⟨.null, [], by decide, by simp⟩, .null⟩

/-- A thread with a first user body and the inputs of its `Agent` calls. -/
def threadWith (tid body : PyStr) (inputs : List PyStr) : Draft :=
  ⟨tid, noReply, [], .str body, body, [],
    inputs.map fun input => ⟨py "t0", none, .toolCall (.str (py "Agent")) input (.str (py "c0"))⟩⟩

def selfDispatch : Draft :=
  threadWith (py "a") (py "fix the build") [py "\x7b\"prompt\": \"fix the build\"\x7d"]

/-- A thread that passes its own request on becomes its own parent. -/
theorem self_dispatch_own_parent :
    ∃ wired, classifyAndWire [selfDispatch] = .ok wired ∧ IsParent wired (py "a") (py "a") := by
  obtain ⟨wired, hwired, hmem⟩ := ok_of_toOption
    (show ∃ wired ∈ (classifyAndWire [selfDispatch]).toOption,
      (py "a", some (py "a")) ∈ wired.map fun w => (w.1.threadId, w.2.2.map Prod.fst) by
        decide +kernel)
  refine ⟨wired, hwired, ?_⟩
  obtain ⟨w, hw, he⟩ := List.mem_map.mp hmem
  obtain ⟨hid, hparent⟩ := Prod.mk.inj he
  obtain ⟨parent, hp, hb⟩ := Option.map_eq_some_iff.mp hparent
  exact ⟨w, hw, hid, parent, hp, hb⟩

/-- The prompt of the point a thread got. -/
def normAt (pts : List Point) (i : Option ℕ) :
    Option PyStr := i.bind fun i => pts[i]?.map Point.norm

def unusedCount (n : PyStr) (pts : List Point) : ℕ := pts.countP fun p => !p.used && p.norm == n

lemma normAt_markUsed (pts : List Point) (i : Option ℕ) : normAt (markUsed pts i) = normAt pts := by
  funext j
  cases j with
  | none => rfl
  | some j => exact getElem?_markUsed Point.norm (fun _ => rfl) pts i j

lemma normAt_pointsAfter (pts : List Point) (threads : List Draft) :
    normAt (pointsAfter pts threads) = normAt pts := by
  funext j
  cases j with
  | none => rfl
  | some j => exact getElem?_pointsAfter Point.norm (fun _ => rfl) pts threads j

lemma unusedCount_markUsed (n : PyStr) (pts : List Point) (th : Draft) :
    unusedCount n (markUsed pts (pointFor pts th)) +
      (if normAt pts (pointFor pts th) = some n then 1 else 0) = unusedCount n pts := by
  cases hi : pointFor pts th with
  | none => simp [markUsed, normAt]
  | some i =>
    obtain ⟨p, hp, hused⟩ := pointFor_spec hi
    obtain ⟨hlt, rfl⟩ := List.getElem?_eq_some_iff.mp hp
    have hsplit : pts = pts.take i ++ pts[i] :: pts.drop (i + 1) := by
      rw [List.getElem_cons_drop, List.take_append_drop]
    have hnorm : normAt pts (some i) = some pts[i].norm := by
      rw [normAt, Option.bind_some, hp, Option.map_some]
    rw [hnorm, markUsed, List.modify_eq_take_cons_drop hlt, unusedCount, unusedCount]
    conv_rhs => rw [hsplit]
    clear hsplit
    simp only [List.countP_append, List.countP_cons, hused, Bool.not_true, Bool.false_and,
      Bool.not_false, Bool.true_and, beq_iff_eq, Option.some.injEq]
    split_ifs <;> simp <;> omega

lemma unusedCount_pointsAfter (n : PyStr) (pts : List Point) (threads : List Draft) :
    unusedCount n (pointsAfter pts threads) +
      (wirePoints pts threads).countP (fun i => normAt pts i = some n) = unusedCount n pts := by
  induction threads generalizing pts with
  | nil => simp [pointsAfter, wirePoints]
  | cons th rest ih =>
    have hstep := unusedCount_markUsed n pts th
    have hrest := ih (markUsed pts (pointFor pts th))
    rw [normAt_markUsed] at hrest
    rw [pointsAfter, List.foldl_cons, wirePoints, List.countP_cons]
    rw [pointsAfter] at hrest
    simp only [decide_eq_true_eq]
    omega

lemma normAt_pointFor_iff (pts : List Point) (th : Draft) :
    normAt pts (pointFor pts th) = some (bodyOf th) ↔
      bodyOf th ≠ [] ∧ 0 < unusedCount (bodyOf th) pts := by
  have hcount : 0 < unusedCount (bodyOf th) pts ↔ ∃ i, Free pts (· = bodyOf th) i := by
    rw [unusedCount, List.countP_pos_iff]
    simp only [Free, List.mem_iff_getElem?, Bool.and_eq_true, Bool.not_eq_true', beq_iff_eq]
    exact ⟨fun ⟨p, ⟨i, hi⟩, hp⟩ => ⟨i, p, hi, hp⟩, fun ⟨i, p, hi, hp⟩ => ⟨p, ⟨i, hi⟩, hp⟩⟩
  rw [hcount]
  constructor
  · intro h
    obtain ⟨i, hi, hp⟩ := Option.bind_eq_some_iff.mp h
    obtain ⟨p, hp, hnorm⟩ := Option.map_eq_some_iff.mp hp
    obtain ⟨p', hp', hused⟩ := pointFor_spec hi
    obtain rfl := Option.some.inj (hp.symm.trans hp')
    exact ⟨(pointFor_iff_takes.mp hi).1, i, p, hp, hused, hnorm⟩
  · classical
    rintro ⟨hne, hex⟩
    have hfirst : FirstFree pts (· = bodyOf th) (Nat.find hex) :=
      ⟨Nat.find_spec hex, fun j hj => Nat.find_min hex hj⟩
    obtain ⟨p, hp, -, hnorm⟩ := hfirst.1
    rw [pointFor_iff_takes.mpr ⟨hne, .inl hfirst⟩, normAt, Option.bind_some,
      hp, Option.map_some, hnorm]

/-- The points with prompt `n` that threads with another body have claimed. -/
def takenByOthers (n : PyStr) (pts : List Point) (threads : List Draft) : ℕ :=
  (threads.zip (wirePoints pts threads)).countP fun q => bodyOf q.1 ≠ n ∧ normAt pts q.2 = some n

def sameBody (n : PyStr) (threads : List Draft) : ℕ := threads.countP fun th => bodyOf th = n

lemma claimed_le (n : PyStr) (pts : List Point) (threads : List Draft) :
    (wirePoints pts threads).countP (fun i => normAt pts i = some n) ≤
        takenByOthers n pts threads + sameBody n threads ∧
      ((∀ q ∈ threads.zip (wirePoints pts threads), bodyOf q.1 = n → normAt pts q.2 = some n) →
        (wirePoints pts threads).countP (fun i => normAt pts i = some n) =
          takenByOthers n pts threads + sameBody n threads) := by
  have hlen := wirePoints_length pts threads
  have hsnd : (wirePoints pts threads).countP (fun i => normAt pts i = some n) =
      (threads.zip (wirePoints pts threads)).countP fun q => normAt pts q.2 = some n := by
    conv_lhs => rw [← List.map_snd_zip hlen.le]
    rw [List.countP_map]
    rfl
  have hfst : sameBody n threads =
      (threads.zip (wirePoints pts threads)).countP fun q => bodyOf q.1 = n := by
    conv_lhs => rw [sameBody, ← List.map_fst_zip hlen.ge]
    rw [List.countP_map]
    rfl
  rw [hsnd, hfst, takenByOthers]
  generalize threads.zip (wirePoints pts threads) = l
  induction l with
  | nil => simp
  | cons q l ih =>
    simp only [List.countP_cons, List.forall_mem_cons, decide_eq_true_eq]
    obtain ⟨hle, heq⟩ := ih
    constructor
    · split_ifs <;> first | omega | simp_all
    · rintro ⟨hq, hl⟩
      have := heq hl
      split_ifs <;> first | omega | simp_all

lemma pointOf_unused {tid : PyStr} {t : Turn} {points : List Point}
    (h : pointOf tid t = .ok points) :
    ∀ p ∈ points, p.used = false := by
  rw [pointOf] at h
  split at h
  · split_ifs at h
    · obtain ⟨prompt, -, h⟩ := bind_eq_ok.mp h
      split_ifs at h
      · obtain ⟨text, -, h⟩ := bind_eq_ok.mp h
        obtain rfl := Except.ok.inj h
        simp
      · obtain rfl := Except.ok.inj h
        simp
    · obtain rfl := Except.ok.inj h
      simp
  · obtain rfl := Except.ok.inj h
    simp

lemma dispatchPoints_unused
    (h : dispatchPoints threads = .ok pts) : ∀ p ∈ pts, p.used = false := by
  obtain ⟨groups, hgroups, rfl⟩ := map_eq_ok.mp h
  intro p hp
  obtain ⟨group, hgroup, hp⟩ := List.mem_flatten.mp hp
  obtain ⟨th, -, hth⟩ := forall₂_mem_right (mapM_eq_ok.mp hgroups) hgroup
  obtain ⟨turns, hturns, rfl⟩ := map_eq_ok.mp hth
  obtain ⟨points, hpoints, hp⟩ := List.mem_flatten.mp hp
  obtain ⟨t, -, ht⟩ := forall₂_mem_right (mapM_eq_ok.mp hturns) hpoints
  exact pointOf_unused ht p hp

/-- The threads with a given body all get a point with exactly that prompt, exactly when, as
each of them is reached, the threads before it with that body and the points with that prompt
that others have claimed are together fewer than the points with that prompt. -/
theorem exact_matches_wired_iff (threads : List Draft) (pts : List Point)
    (hpts : dispatchPoints threads = .ok pts) (n : PyStr) :
    (∃ wired, classifyAndWire threads = .ok wired ∧ wired.map (fun w => w.1) = threads ∧
      wired.map (fun w => w.2.2) = (wirePoints pts threads).map (parentAt pts)) ∧
    ((∀ q ∈ threads.zip (wirePoints pts threads), bodyOf q.1 = n → normAt pts q.2 = some n) ↔
      ∀ before th after, threads = before ++ th :: after → bodyOf th = n →
        n ≠ [] ∧ takenByOthers n pts before + sameBody n before <
          pts.countP fun p => p.norm = n) := by
  have htotal : unusedCount n pts = pts.countP fun p => p.norm = n := by
    refine List.countP_congr fun p hp => ?_
    simp [dispatchPoints_unused hpts p hp]
  have hnext : ∀ before th, bodyOf th = n →
      (normAt pts (pointFor (pointsAfter pts before) th) = some n ↔
        n ≠ [] ∧ 0 < unusedCount n (pointsAfter pts before)) := by
    rintro before th rfl
    rw [← normAt_pointsAfter pts before]
    exact normAt_pointFor_iff _ th
  refine ⟨?_, fun hall before th after hsplit hbody => ?_, fun hcond q hq hbody => ?_⟩
  · obtain ⟨wired, hwired, hfst, hparents, -⟩ := classifyAndWire_eq hpts
    exact ⟨wired, hwired, hfst, hparents⟩
  · have hthis := (hnext before th hbody).mp
      (hall (th, _) (mem_zip_wirePoints.mpr ⟨before, after, hsplit, rfl⟩) hbody)
    have hclaimed := (claimed_le n pts before).2 fun q hq => hall q ?_
    · have hcount := unusedCount_pointsAfter n pts before
      rw [hclaimed, htotal] at hcount
      exact ⟨hthis.1, by omega⟩
    · obtain ⟨before', after', rfl, hq'⟩ := mem_zip_wirePoints.mp hq
      exact mem_zip_wirePoints.mpr ⟨before', after' ++ th :: after, by simp [hsplit], hq'⟩
  · obtain ⟨before, after, hsplit, hq'⟩ := mem_zip_wirePoints.mp hq
    obtain ⟨hne, hlt⟩ := hcond before q.1 after hsplit hbody
    have hclaimed := (claimed_le n pts before).1
    have hcount := unusedCount_pointsAfter n pts before
    rw [htotal] at hcount
    rw [hq']
    exact (hnext before q.1 hbody).mpr ⟨hne, by omega⟩

def dispatcher : Draft :=
  threadWith (py "m") (py "start") [py "\x7b\"prompt\": \"review the code\"\x7d"]
def reviewer : Draft := threadWith (py "e") (py "review the code") []
def shortReviewer : Draft := threadWith (py "s") (py "the code") []

theorem exact_matches_wired_reviewer : ∃ pts, dispatchPoints [dispatcher, reviewer] = .ok pts ∧
      takenByOthers (py "reviewthecode") pts [dispatcher] +
        sameBody (py "reviewthecode") [dispatcher] < pts.countP fun p =>
          p.norm = py "reviewthecode" := by
  obtain ⟨pts, hpts, hall⟩ := ok_of_toOption
    (show ∃ pts ∈ (dispatchPoints [dispatcher, reviewer]).toOption,
      ∀ q ∈ [dispatcher, reviewer].zip (wirePoints pts [dispatcher, reviewer]),
        bodyOf q.1 = py "reviewthecode" → normAt pts q.2 = some (py "reviewthecode") by
          decide +kernel)
  have hexact := (exact_matches_wired_iff _ pts hpts (py "reviewthecode")).2.mp hall
  exact ⟨pts, hpts, (hexact [dispatcher] reviewer [] rfl (by decide +kernel)).2⟩

/-- A thread whose body is a part of the prompt comes first and takes the only point. -/
theorem substring_takes_exact_point :
    ∃ pts wired, dispatchPoints [dispatcher, shortReviewer, reviewer] = .ok pts ∧
      classifyAndWire [dispatcher, shortReviewer, reviewer] = .ok wired ∧
      sameBody (py "reviewthecode") [dispatcher, shortReviewer, reviewer] = 1 ∧
      (pts.countP fun p => p.norm = py "reviewthecode") = 1 ∧
      wired.map (fun w => (w.1.threadId, w.2.2.map Prod.fst)) =
        [(py "m", none), (py "s", some (py "m")), (py "e", none)] := by
  obtain ⟨pts, hpts, hcount⟩ := ok_of_toOption
    (show ∃ pts ∈ (dispatchPoints [dispatcher, shortReviewer, reviewer]).toOption,
      (pts.countP fun p => p.norm = py "reviewthecode") = 1 by decide +kernel)
  obtain ⟨wired, hwired, hparents⟩ := ok_of_toOption
    (show ∃ wired ∈ (classifyAndWire [dispatcher, shortReviewer, reviewer]).toOption,
      wired.map (fun w => (w.1.threadId, w.2.2.map Prod.fst)) =
        [(py "m", none), (py "s", some (py "m")), (py "e", none)] by decide +kernel)
  exact ⟨pts, wired, hpts, hwired, by decide +kernel, hcount, hparents⟩

end AgentTrajectory.ExportContext
