import Mathlib

/-! Relations without cycles, and what one more edge does to them. -/
namespace AgentTrajectory
variable {α : Type*}

def Acyclic (R : α → α → Prop) : Prop := ∀ a, ¬ Relation.TransGen R a a

def WithEdge (R : α → α → Prop) (a b x y : α) : Prop := R x y ∨ x = a ∧ y = b

lemma Acyclic.mono {R S : α → α → Prop} (h : ∀ x y, R x y → S x y) (hS : Acyclic S) : Acyclic R :=
  fun a ha => hS a (Relation.TransGen.mono h a a ha)

lemma acyclic_of_lt {R : α → α → Prop} (f : α → ℕ) (h : ∀ x y, R x y → f y < f x) : Acyclic R := by
  intro a ha
  have hlt : ∀ {b}, Relation.TransGen R a b → f b < f a := by
    intro b hb
    induction hb with
    | single hab => exact h _ _ hab
    | tail _ hbc ih => exact (h _ _ hbc).trans ih
  exact lt_irrefl _ (hlt ha)

lemma transGen_withEdge {R : α → α → Prop} {a b : α} (hba : ¬ Relation.ReflTransGen R b a) {x y : α}
    (h : Relation.TransGen (WithEdge R a b) x y) :
    Relation.TransGen R x y ∨ Relation.ReflTransGen R x a ∧ Relation.ReflTransGen R b y := by
  induction h with
  | single hxy =>
    rcases hxy with hxy | ⟨rfl, rfl⟩
    · exact .inl (.single hxy)
    · exact .inr ⟨.refl, .refl⟩
  | tail _ hyz ih =>
    rcases hyz with hyz | ⟨rfl, rfl⟩
    · rcases ih with ih | ⟨hxa, hby⟩
      · exact .inl (ih.tail hyz)
      · exact .inr ⟨hxa, hby.tail hyz⟩
    · rcases ih with ih | ⟨-, hby⟩
      · exact .inr ⟨ih.to_reflTransGen, .refl⟩
      · exact absurd hby hba

theorem acyclic_withEdge_iff (R : α → α → Prop) (a b : α) :
    Acyclic (WithEdge R a b) ↔ Acyclic R ∧ ¬ Relation.ReflTransGen R b a := by
  constructor
  · intro h
    refine ⟨h.mono fun x y => .inl, fun hba => h a ?_⟩
    have hba' : Relation.ReflTransGen (WithEdge R a b) b a :=
      Relation.ReflTransGen.mono (fun _ _ hxy => .inl hxy) b a hba
    exact .head' (.inr ⟨rfl, rfl⟩) hba'
  · rintro ⟨hR, hba⟩ x hx
    rcases transGen_withEdge hba hx with h | ⟨hxa, hbx⟩
    · exact hR x h
    · exact hba (hbx.trans hxa)

end AgentTrajectory
