import Mathlib

/-! Comparing two clusterings of a list by pairs. A clustering is given by a key: elements with
equal keys lie together. A pair is split if the reference puts it together and the key does not, and
merged if it is the other way around. -/
namespace AgentTrajectory.ClusterCounts

variable {α γ κ κ' : Type*} [DecidableEq γ] [DecidableEq κ] [DecidableEq κ']

/-- The pairs of different places, the front one first. -/
def pairs : List α → List (α × α)
  | [] => []
  | a :: l => l.map (fun b => (a, b)) ++ pairs l

def isSplit (gold : α → γ) (key : α → κ) (p : α × α) : Bool := gold p.1 = gold p.2 ∧ key p.1 ≠ key p.2

def isMerged (gold : α → γ) (key : α → κ) (p : α × α) : Bool := gold p.1 ≠ gold p.2 ∧ key p.1 = key p.2

def splitPairs (gold : α → γ) (key : α → κ) (l : List α) : ℕ := (pairs l).countP (isSplit gold key)

def mergedPairs (gold : α → γ) (key : α → κ) (l : List α) : ℕ := (pairs l).countP (isMerged gold key)

lemma mem_of_mem_pairs {l : List α} {p : α × α} (h : p ∈ pairs l) : p.1 ∈ l ∧ p.2 ∈ l := by
  induction l with
  | nil => simp [pairs] at h
  | cons a l ih =>
    rcases List.mem_append.mp h with h | h
    · obtain ⟨b, hb, rfl⟩ := List.mem_map.mp h
      exact ⟨List.mem_cons_self, List.mem_cons_of_mem a hb⟩
    · exact ⟨List.mem_cons_of_mem a (ih h).1, List.mem_cons_of_mem a (ih h).2⟩

lemma mem_pairs {l : List α} {a b : α} (ha : a ∈ l) (hb : b ∈ l) (hne : a ≠ b) :
    (a, b) ∈ pairs l ∨ (b, a) ∈ pairs l := by
  induction l with
  | nil => simp at ha
  | cons c l ih =>
    simp only [pairs, List.mem_append]
    rcases List.mem_cons.mp ha with rfl | hal
    · exact .inl (.inl (List.mem_map_of_mem (List.mem_of_ne_of_mem hne.symm hb)))
    · rcases List.mem_cons.mp hb with rfl | hbl
      · exact .inr (.inl (List.mem_map_of_mem hal))
      · exact (ih hal hbl).imp .inr .inr

lemma imp_of_countP_eq {l : List α} {p q : α → Bool} (himp : ∀ a ∈ l, p a → q a) (h : l.countP p = l.countP q) :
    ∀ a ∈ l, q a → p a := by
  induction l with
  | nil => simp
  | cons a l ih =>
    have hle : l.countP p ≤ l.countP q := List.countP_mono_left fun b hb => himp b (List.mem_cons_of_mem a hb)
    have hhead := himp a List.mem_cons_self
    rw [List.countP_cons, List.countP_cons] at h
    have hcount : l.countP p = l.countP q ∧ (q a → p a) := by
      by_cases hp : p a = true
      · simp only [hp, hhead hp, if_true] at h
        exact ⟨by omega, fun _ => hp⟩
      · by_cases hq : q a = true
        · simp only [hp, hq, if_true] at h
          simp only [Bool.false_eq_true, if_false] at h
          omega
        · exact ⟨by simpa [hp, hq] using h, fun hqa => absurd hqa hq⟩
    intro b hb hqb
    rcases List.mem_cons.mp hb with rfl | hb
    · exact hcount.2 hqb
    · exact ih (fun c hc => himp c (List.mem_cons_of_mem a hc)) hcount.1 b hb hqb

theorem coarser_counts_eq_iff {gold : α → γ} {coarse : α → κ} {fine : α → κ'} {l : List α}
    (h : ∀ a ∈ l, ∀ b ∈ l, fine a = fine b → coarse a = coarse b) :
    (splitPairs gold coarse l = splitPairs gold fine l ∧ mergedPairs gold coarse l = mergedPairs gold fine l) ↔
      ∀ a ∈ l, ∀ b ∈ l, coarse a = coarse b → fine a = fine b := by
  constructor
  · rintro ⟨hsplit, hmerged⟩
    have hs := imp_of_countP_eq (p := isSplit gold coarse) (q := isSplit gold fine) (fun p hp hc => by
      obtain ⟨h1, h2⟩ := mem_of_mem_pairs hp
      simp only [isSplit, decide_eq_true_eq] at hc ⊢
      exact ⟨hc.1, fun he => hc.2 (h p.1 h1 p.2 h2 he)⟩) hsplit
    have hm := imp_of_countP_eq (p := isMerged gold fine) (q := isMerged gold coarse) (fun p hp hc => by
      obtain ⟨h1, h2⟩ := mem_of_mem_pairs hp
      simp only [isMerged, decide_eq_true_eq] at hc ⊢
      exact ⟨hc.1, h p.1 h1 p.2 h2 hc.2⟩) hmerged.symm
    have hpair : ∀ p ∈ pairs l, coarse p.1 = coarse p.2 → fine p.1 = fine p.2 := by
      intro p hp hc
      by_contra hf
      by_cases hg : gold p.1 = gold p.2
      · have := hs p hp (by simp [isSplit, hg, hf])
        simp [isSplit, hc] at this
      · have := hm p hp (by simp [isMerged, hg, hc])
        simp [isMerged, hf] at this
    intro a ha b hb hc
    by_cases hab : a = b
    · rw [hab]
    · rcases mem_pairs ha hb hab with hp | hp
      · exact hpair _ hp hc
      · exact (hpair _ hp hc.symm).symm
  · intro hback
    have hiff : ∀ p ∈ pairs l, (coarse p.1 = coarse p.2 ↔ fine p.1 = fine p.2) := fun p hp =>
      have ⟨h1, h2⟩ := mem_of_mem_pairs hp
      ⟨hback p.1 h1 p.2 h2, h p.1 h1 p.2 h2⟩
    constructor
    · exact List.countP_congr fun p hp => by simp [isSplit, hiff p hp]
    · exact List.countP_congr fun p hp => by simp [isMerged, hiff p hp]

end AgentTrajectory.ClusterCounts
