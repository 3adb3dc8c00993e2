import Mathlib

/-! Cutting a list at the matches of a pattern, from left to right. The pattern is given by the
match it takes at the start of a list. A segment is marked `true` where it is a match. -/
namespace AgentTrajectory.LeftmostSegments
variable {α : Type*}

structure Pattern (α : Type*) where
  first : List α → Option (List α × List α)
  append_eq : ∀ {s m rest}, first s = some (m, rest) → m ++ rest = s
  ne_nil : ∀ {s m rest}, first s = some (m, rest) → m ≠ []

variable (p : Pattern α)

/-- No match starts in `u` when `rest` follows it. -/
def Quiet (u rest : List α) : Prop := ∀ v, v <:+ u → v ≠ [] → p.first (v ++ rest) = none

def body (u : List α) : List (Bool × List α) := if u = [] then [] else [(false, u)]

inductive Segmented : List α → List (Bool × List α) → Prop
  | last {u : List α} (h : Quiet p u []) : Segmented u (body u)
  | hit {u m rest : List α} {segs : List (Bool × List α)} (h : Quiet p u (m ++ rest))
      (hm : p.first (m ++ rest) = some (m, rest)) (hrest : Segmented rest segs) :
      Segmented (u ++ (m ++ rest)) (body u ++ (true, m) :: segs)

variable {p}

lemma quiet_nil (rest : List α) : Quiet p [] rest := fun _ hv hne => absurd (List.suffix_nil.mp hv) hne

lemma Quiet.concat {u s : List α} {c : α} (h : Quiet p u (c :: s)) (hc : p.first (c :: s) = none) :
    Quiet p (u ++ [c]) s := by
  intro v hv hne
  rcases List.suffix_concat_iff.mp hv with rfl | ⟨w, rfl, hw⟩
  · exact absurd rfl hne
  · rw [List.append_assoc]
    by_cases hnil : w = []
    · rw [hnil]
      exact hc
    · exact h w hw hnil

lemma flatten_body (u : List α) : ((body u).map Prod.snd).flatten = u := by
  rw [body]
  split_ifs with hu
  · exact hu.symm
  · simp

lemma mem_body {u : List α} {x : Bool × List α} (h : x ∈ body u) : x = (false, u) := by
  rw [body] at h
  split_ifs at h
  · simp at h
  · exact List.mem_singleton.mp h

section Results
variable {s : List α} {segs : List (Bool × List α)}

theorem Segmented.flatten (h : Segmented p s segs) : (segs.map Prod.snd).flatten = s := by
  induction h with
  | last _ => exact flatten_body _
  | hit _ _ _ ih => rw [List.map_append, List.flatten_append, flatten_body, List.map_cons, List.flatten_cons, ih]

theorem Segmented.isChain (h : Segmented p s segs) : segs.IsChain fun a b => a.1 = true ∨ b.1 = true := by
  induction h with
  | last _ =>
    rw [body]
    split_ifs
    · exact .nil
    · exact .singleton _
  | @hit u m rest segs _ _ _ ih =>
    have hmatch : ((true, m) :: segs).IsChain fun a b => a.1 = true ∨ b.1 = true :=
      List.isChain_cons.mpr ⟨fun _ _ => .inl rfl, ih⟩
    rw [body]
    split_ifs
    · exact hmatch
    · exact List.isChain_cons.mpr ⟨fun b hb => .inr (Option.some.inj hb ▸ rfl), hmatch⟩

theorem Segmented.quiet (h : Segmented p s segs) {u : List α} (hu : (false, u) ∈ segs) :
    ∃ rest, Quiet p u rest := by
  induction h with
  | last h =>
    obtain rfl := (Prod.mk.inj (mem_body hu)).2
    exact ⟨[], h⟩
  | hit h _ _ ih =>
    rcases List.mem_append.mp hu with hu | hu
    · obtain rfl := (Prod.mk.inj (mem_body hu)).2
      exact ⟨_, h⟩
    · exact ih ((List.mem_cons.mp hu).resolve_left (by simp))

end Results

end AgentTrajectory.LeftmostSegments
