import AgentTrajectory.LlmDecompose
import AgentTrajectory.RelatedLists

/-! What the passes before overlap resolution do to an answer: where the parts of a rollback come
from, and which statuses are set back. -/
namespace AgentTrajectory.LlmDecompose
open PyText PyDict PyJson TaskStitch LlmSegment RelatedLists

variable {rows : List Event} {env : Env}

def Touched (edges : List Edge) (id : Json) : Prop :=
  ∃ e ∈ edges, e.isRework = true ∧ (e.src = id ∨ e.dst = id)

/-- If the sub-requirement holds a user message, its smallest member is one. -/
def StartsWithUser (env : Env) (rows : List Event) (s : Subreq) : Prop :=
  (∃ v ∈ s.numbers env, isUserAt rows v = .ok true) →
    ∀ m ∈ s.numbers env, (∀ v ∈ s.numbers env, m ≤ v) → isUserAt rows m = .ok true

lemma reworkIds_ok {edges : List Edge} {ids : List Json} (h : reworkIds edges = .ok ids) (x : Json) :
    x ∈ ids ↔ Touched edges x := by
  simp only [reworkIds] at h
  split_ifs at h
  obtain rfl := Except.ok.inj h
  simp only [List.mem_flatMap, List.mem_filter, List.mem_cons, List.not_mem_nil, or_false, Touched]
  constructor
  · rintro ⟨e, ⟨he, hr⟩, hx⟩
    exact ⟨e, he, hr, hx.imp Eq.symm Eq.symm⟩
  · rintro ⟨e, he, hr, hx⟩
    exact ⟨e, ⟨he, hr⟩, hx.imp Eq.symm Eq.symm⟩

lemma inSet_ok {x : Json} {ids : List Json} {b : Bool} (h : inSet x ids = .ok b) :
    b = true ↔ x ∈ ids := by
  simp only [inSet] at h
  split_ifs at h
  obtain rfl := Except.ok.inj h
  simp

lemma splitAtUser_some {l p r : List ℕ} (h : splitAtUser rows l = .ok (some (p, r))) :
    l = p ++ r ∧ (∀ v ∈ p, isUserAt rows v = .ok false) ∧
      ∃ m t, r = m :: t ∧ isUserAt rows m = .ok true := by
  induction l generalizing p with
  | nil => simp [splitAtUser] at h
  | cons idx rest ih =>
    rw [splitAtUser] at h
    cases hu : isUserAt rows idx with
    | error e => simp [hu] at h
    | ok b =>
      cases b with
      | true =>
        simp only [hu, Except.ok.injEq, Option.some.injEq, Prod.mk.injEq] at h
        obtain ⟨rfl, rfl⟩ := h
        exact ⟨rfl, by simp, idx, rest, rfl, hu⟩
      | false =>
        simp only [hu] at h
        cases hs : splitAtUser rows rest with
        | error e => simp [hs] at h
        | ok o =>
          cases o with
          | none => simp [hs] at h
          | some q =>
            obtain ⟨p', r'⟩ := q
            simp only [hs, Except.ok.injEq, Option.some.injEq, Prod.mk.injEq] at h
            obtain ⟨rfl, rfl⟩ := h
            obtain ⟨h1, h2, h3⟩ := ih hs
            exact ⟨by rw [h1]; rfl, List.forall_mem_cons.mpr ⟨hu, h2⟩, h3⟩

lemma splitAtUser_none {l : List ℕ} (h : splitAtUser rows l = .ok none) :
    ∀ v ∈ l, isUserAt rows v = .ok false := by
  induction l with
  | nil => simp
  | cons idx rest ih =>
    rw [splitAtUser] at h
    cases hu : isUserAt rows idx with
    | error e => simp [hu] at h
    | ok b =>
      cases b with
      | true => simp [hu] at h
      | false =>
        simp only [hu] at h
        cases hs : splitAtUser rows rest with
        | error e => simp [hs] at h
        | ok o =>
          cases o with
          | none => exact List.forall_mem_cons.mpr ⟨hu, ih hs⟩
          | some q => simp [hs] at h

lemma numbers_map_num (env : Env) (s : Subreq) (l : List ℕ) (h : s.memberIdx = l.map .num) :
    s.numbers env = l := by
  have hnum : asSegInt env ∘ Member.num = some := rfl
  rw [Subreq.numbers, h, List.filterMap_map, hnum, List.filterMap_some]

lemma sorted_numbers_perm (env : Env) (s : Subreq) :
    ((s.numbers env).insertionSort (· ≤ ·)).Perm (s.numbers env) := List.perm_insertionSort _ _

lemma sorted_numbers_pairwise (env : Env) (s : Subreq) :
    ((s.numbers env).insertionSort (· ≤ ·)).Pairwise (· ≤ ·) := List.pairwise_insertionSort _ _

lemma startsWithUser_of_uncut {s : Subreq}
    (h : rollbackCut env rows s = .ok none) (hr : isRollback s = true) : StartsWithUser env rows s := by
  have hperm := sorted_numbers_perm env s
  rintro ⟨v, hv, huser⟩ m hm hmin
  have hv' := hperm.mem_iff.mpr hv
  have hm' := hperm.mem_iff.mpr hm
  rw [rollbackCut] at h
  simp only [hr, Bool.true_eq_false, false_or] at h
  split_ifs at h with hlen
  · obtain ⟨x, hx⟩ : ∃ x, (s.numbers env).insertionSort (· ≤ ·) = [x] := by
      rw [← List.length_eq_one_iff]
      have := List.length_pos_of_mem hv'
      omega
    rw [hx, List.mem_singleton] at hv' hm'
    rwa [hm', ← hv']
  · cases hs : splitAtUser rows ((s.numbers env).insertionSort (· ≤ ·)) with
    | error e => simp [hs] at h
    | ok o =>
      cases o with
      | none => simp [splitAtUser_none hs v hv'] at huser
      | some q =>
        obtain ⟨p, r⟩ := q
        cases p with
        | nil =>
          obtain ⟨hl, -, x, t, rfl, hx⟩ := splitAtUser_some hs
          have hle : x ≤ m := by
            have hsorted := sorted_numbers_pairwise env s
            rw [hl] at hsorted hm'
            rcases List.mem_cons.mp hm' with rfl | hmt
            · exact le_rfl
            · exact List.rel_of_pairwise_cons hsorted hmt
          have hmx : m ≤ x := hmin x (hperm.mem_iff.mp (by rw [hl]; simp))
          rwa [le_antisymm hmx hle]
        | cons i is =>
          simp only [hs] at h
          split at h <;> simp at h

lemma rollbackCut_inv {s : Subreq} {old title : PyStr}
    {pre rest : List ℕ} (h : rollbackCut env rows s = .ok (some (old, title, pre, rest))) :
    isRollback s = true ∧ s.id.getD (.str (py "S?")) = .str old ∧ pre ≠ [] ∧
      splitAtUser rows ((s.numbers env).insertionSort (· ≤ ·)) = .ok (some (pre, rest)) := by
  rw [rollbackCut] at h
  split_ifs at h with hc
  · simp at h
  simp only [not_or, Bool.not_eq_false] at hc
  cases hs : splitAtUser rows ((s.numbers env).insertionSort (· ≤ ·)) with
  | error e => simp [hs] at h
  | ok o =>
    cases o with
    | none => simp [hs] at h
    | some q =>
      obtain ⟨p, r⟩ := q
      cases p with
      | nil => simp [hs] at h
      | cons i is =>
        simp only [hs] at h
        split at h
        · rename_i o' t' hid htitle
          simp only [Except.ok.injEq, Option.some.injEq, Prod.mk.injEq] at h
          obtain ⟨rfl, rfl, rfl, rfl⟩ := h
          exact ⟨hc.1, hid, by simp, rfl⟩
        · simp at h

lemma rollbackCut_some {s : Subreq} {old title : PyStr}
    {pre rest : List ℕ} (h : rollbackCut env rows s = .ok (some (old, title, pre, rest))) :
    isRollback s = true ∧ s.id.getD (.str (py "S?")) = .str old ∧
      (pre ++ rest).Perm (s.numbers env) ∧ pre ≠ [] ∧
      (∃ m t, rest = m :: t ∧ isUserAt rows m = .ok true) ∧ (pre ++ rest).Pairwise (· ≤ ·) := by
  obtain ⟨hr, hid, hpre, hs⟩ := rollbackCut_inv h
  obtain ⟨hl, -, hm⟩ := splitAtUser_some hs
  rw [← hl]
  exact ⟨hr, hid, sorted_numbers_perm env s, hpre, hm, sorted_numbers_pairwise env s⟩

inductive PartOf (env : Env) (rows : List Event) (s : Subreq) : Subreq → Prop
  | whole (h : rollbackCut env rows s = .ok none) : PartOf env rows s s
  | stray {old title : PyStr} {pre rest : List ℕ}
      (h : rollbackCut env rows s = .ok (some (old, title, pre, rest))) :
      PartOf env rows s (strayPart old title pre)
  | back {old title : PyStr} {pre rest : List ℕ}
      (h : rollbackCut env rows s = .ok (some (old, title, pre, rest))) :
      PartOf env rows s (backPart s old rest)

lemma PartOf.startsWithUser {s p : Subreq}
    (h : PartOf env rows s p) (hr : isRollback p = true) : StartsWithUser env rows p := by
  cases h with
  | whole h => exact startsWithUser_of_uncut h hr
  | stray h => simp [isRollback, strayPart, reworked, corrected, show py "有返工" ≠ py "被纠偏" by simp] at hr
  | back h =>
    obtain ⟨-, -, -, -, ⟨m, t, rfl, hm⟩, hsorted⟩ := rollbackCut_some h
    intro _ x hx hmin
    rw [numbers_map_num env _ _ rfl] at hx hmin
    have hle : m ≤ x := by
      rcases List.mem_cons.mp hx with rfl | hxt
      · exact le_rfl
      · exact List.rel_of_pairwise_cons (List.pairwise_append.mp hsorted).2.1 hxt
    rwa [le_antisymm (hmin m (by simp)) hle]

lemma purifyFrom_cons {s : Subreq} {ss : List Subreq}
    {edges : List Edge} {out : List Subreq × List Edge}
    (h : purifyFrom env rows (s :: ss) edges = .ok out) :
    (∃ out', rollbackCut env rows s = .ok none ∧ purifyFrom env rows ss edges = .ok out' ∧
        out = (s :: out'.1, out'.2)) ∨
      ∃ old title pre rest out', rollbackCut env rows s = .ok (some (old, title, pre, rest)) ∧
        purifyFrom env rows ss (edges.map (renameEdge old) ++ [reworkEdge old]) = .ok out' ∧
        out = (strayPart old title pre :: backPart s old rest :: out'.1, out'.2) := by
  rw [purifyFrom] at h
  cases hc : rollbackCut env rows s with
  | error e => simp [hc] at h
  | ok o =>
    cases o with
    | none =>
      simp only [hc] at h
      cases hp : purifyFrom env rows ss edges with
      | error e => simp [hp, Except.map] at h
      | ok out' =>
        simp only [hp, Except.map, Except.ok.injEq] at h
        exact .inl ⟨out', rfl, rfl, h.symm⟩
    | some q =>
      obtain ⟨old, title, pre, rest⟩ := q
      simp only [hc] at h
      cases hp : purifyFrom env rows ss (edges.map (renameEdge old) ++ [reworkEdge old]) with
      | error e => simp [hp, Except.map] at h
      | ok out' =>
        simp only [hp, Except.map, Except.ok.injEq] at h
        exact .inr ⟨old, title, pre, rest, out', rfl, hp, h.symm⟩

lemma purifyFrom_parts {ss : List Subreq} {edges : List Edge}
    {out : List Subreq × List Edge} (h : purifyFrom env rows ss edges = .ok out) :
    ∀ p ∈ out.1, ∃ s ∈ ss, PartOf env rows s p := by
  induction ss generalizing edges out with
  | nil =>
    obtain rfl := Except.ok.inj h
    simp
  | cons s ss ih =>
    intro p hp
    rcases purifyFrom_cons h with ⟨out', hc, ho, rfl⟩ | ⟨old, title, pre, rest, out', hc, ho, rfl⟩
    · rcases List.mem_cons.mp hp with rfl | hp
      · exact ⟨p, by simp, .whole hc⟩
      · obtain ⟨t, ht, hpt⟩ := ih ho p hp
        exact ⟨t, by simp [ht], hpt⟩
    · rcases List.mem_cons.mp hp with rfl | hp
      · exact ⟨s, by simp, .stray hc⟩
      · rcases List.mem_cons.mp hp with rfl | hp
        · exact ⟨s, by simp, .back hc⟩
        · obtain ⟨t, ht, hpt⟩ := ih ho p hp
          exact ⟨t, by simp [ht], hpt⟩

def SaneOf (env : Env) (ids : List Json) (s s' : Subreq) : Prop :=
  (s' = s ∧ ((s.numbers env).length < 2 → isReworkStatus s.status = true → s.idOf ∈ ids)) ∨
    s' = { s with status := passed }

lemma saneSubreq_ok {ids : List Json} {s s' : Subreq}
    (h : saneSubreq env ids s = .ok s') : SaneOf env ids s s' := by
  rw [saneSubreq] at h
  split_ifs at h with hc
  · cases hin : inSet s.idOf ids with
    | error e => simp [hin] at h
    | ok b =>
      cases b with
      | true =>
        simp only [hin, Except.ok.injEq] at h
        exact .inl ⟨h.symm, fun _ _ => (inSet_ok hin).mp rfl⟩
      | false =>
        simp only [hin, Except.ok.injEq] at h
        exact .inr h.symm
  · simp only [Except.ok.injEq] at h
    exact .inl ⟨h.symm, fun h1 h2 => absurd ⟨h1, h2⟩ hc⟩

lemma saneSubreqs_ok {ids : List Json} {ss ss' : List Subreq}
    (h : saneSubreqs env ids ss = .ok ss') : List.Forall₂ (SaneOf env ids) ss ss' := by
  induction ss generalizing ss' with
  | nil =>
    obtain rfl := Except.ok.inj h
    exact .nil
  | cons s ss ih =>
    rw [saneSubreqs] at h
    cases hs : saneSubreq env ids s with
    | error e => simp [hs] at h
    | ok t =>
      cases hr : saneSubreqs env ids ss with
      | error e => simp [hs, hr, Except.map] at h
      | ok ts =>
        simp only [hs, hr, Except.map, Except.ok.injEq] at h
        subst h
        exact .cons (saneSubreq_ok hs) (ih hr)

lemma isReworkStatus_passed : isReworkStatus passed = false := by decide

end AgentTrajectory.LlmDecompose
