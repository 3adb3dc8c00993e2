import AgentTrajectory.UnionFind

/-! Which element of a class a sequence of unions leaves at its head, when the class of the first
element of an edge always goes under the head of the second. The classes do not depend on the
order of the edges, the heads do. -/
namespace AgentTrajectory.UnionOrder
open Forest
variable {α : Type*} {edges : List (α × α)}

/-- The edges lead from the one element to the other, in whichever direction. -/
def Connected (edges : List (α × α)) : α → α → Prop := Relation.EqvGen fun a b => (a, b) ∈ edges

lemma Connected.refl (edges : List (α × α)) (x : α) : Connected edges x x := Relation.EqvGen.refl x

lemma Connected.symm {x y : α} (h : Connected edges x y) : Connected edges y x := Relation.EqvGen.symm _ _ h

lemma Connected.trans {x y z : α} (h : Connected edges x y) (h' : Connected edges y z) : Connected edges x z :=
  Relation.EqvGen.trans _ _ _ h h'

lemma Connected.edge {x y : α} (h : (x, y) ∈ edges) : Connected edges x y := Relation.EqvGen.rel _ _ h

lemma Connected.mono {edges' : List (α × α)} (h : ∀ e ∈ edges, e ∈ edges') {x y : α}
    (hxy : Connected edges x y) : Connected edges' x y :=
  eqvGen_of_rel (fun a b hab => .rel _ _ (h (a, b) hab)) hxy

lemma Connected.perm {edges' : List (α × α)} (h : edges'.Perm edges) {x y : α} :
    Connected edges' x y ↔ Connected edges x y :=
  ⟨.mono fun _ he => h.mem_iff.mp he, .mono fun _ he => h.mem_iff.mpr he⟩

lemma Connected.iff_of_edges {P : α → Prop} (h : ∀ a b, (a, b) ∈ edges → (P a ↔ P b)) {x y : α}
    (hxy : Connected edges x y) : P x ↔ P y := by
  induction hxy with
  | rel a b hab => exact h a b hab
  | refl a => exact Iff.rfl
  | symm a b _ ih => exact ih.symm
  | trans a b c _ _ ih ih' => exact ih.trans ih'

def ConnectedAvoiding (edges : List (α × α)) (v : α) : α → α → Prop :=
  Relation.EqvGen fun a b => (a, b) ∈ edges ∧ a ≠ v ∧ b ≠ v

/-- The element can become the head of its class: whatever else is in the class is connected, apart
from it, to an element with an edge to it. -/
def CanLead (edges : List (α × α)) (v : α) : Prop :=
  ∀ x, Connected edges x v → x ≠ v → ∃ w, (w, v) ∈ edges ∧ ConnectedAvoiding edges v x w

lemma CanLead.perm {edges' : List (α × α)} (h : edges'.Perm edges) {v : α} (hv : CanLead edges' v) :
    CanLead edges v := by
  intro x hx hne
  obtain ⟨w, hw, hxw⟩ := hv x ((Connected.perm h).mpr hx) hne
  exact ⟨w, h.mem_iff.mp hw, eqvGen_of_rel (fun a b hab => .rel _ _ ⟨h.mem_iff.mp hab.1, hab.2⟩) hxw⟩

lemma connectedAvoiding_of_not_connected {v x y : α} (h : Connected edges x y) (hv : ¬Connected edges x v) :
    ConnectedAvoiding edges v x y := by
  induction h with
  | rel a b hab =>
    refine .rel _ _ ⟨hab, ?_, ?_⟩
    · rintro rfl
      exact hv (.refl edges a)
    · rintro rfl
      exact hv (.edge hab)
  | refl a => exact .refl a
  | symm a b hab ih => exact (ih fun hav => hv (Connected.trans (Connected.symm hab) hav)).symm
  | trans a b c hab _ ih ih' => exact (ih hv).trans _ _ _ (ih' fun hbv => hv (Connected.trans hab hbv))

variable [DecidableEq α]

/-- The heads after all unions. -/
def rep (edges : List (α × α)) : α → α := edges.foldl join id

lemma rep_eq_iff (edges : List (α × α)) (x y : α) : rep edges x = rep edges y ↔ Connected edges x y := by
  rw [rep, foldl_join_eq_iff]
  constructor
  · refine eqvGen_of_rel fun a b hab => ?_
    rcases hab with rfl | hab
    · exact .refl a
    · exact .rel _ _ hab
  · exact eqvGen_of_rel fun a b hab => .rel _ _ (.inr hab)

lemma rep_concat (edges : List (α × α)) (e : α × α) : rep (edges ++ [e]) = join (rep edges) e := by
  rw [rep, List.foldl_append]
  rfl

@[simp] lemma rep_rep (edges : List (α × α)) (x : α) : rep edges (rep edges x) = rep edges x := by
  induction edges using List.reverseRecOn generalizing x with
  | nil => rfl
  | append_singleton edges e ih =>
    rw [rep_concat]
    simp only [join]
    split_ifs with h1 h2 h3
    · rfl
    · exact ih e.2
    · exact absurd ((ih x).symm.trans h3) h1
    · exact ih x

lemma connected_rep (edges : List (α × α)) (x : α) : Connected edges x (rep edges x) :=
  (rep_eq_iff edges _ _).mp (rep_rep edges x).symm

lemma rep_of_rep_concat {e : α × α} {v : α} (h : rep (edges ++ [e]) v = v) : rep edges v = v := by
  rw [rep_concat, join] at h
  split_ifs at h with hv
  · rw [← h, rep_rep]
  · exact h

theorem canLead_of_rep {v : α} (h : rep edges v = v) : CanLead edges v := by
  induction edges using List.reverseRecOn with
  | nil =>
    intro x hx hne
    exact absurd ((rep_eq_iff [] x v).mpr hx) hne
  | append_singleton edges e ih =>
    obtain ⟨c, p⟩ := e
    have hv := rep_of_rep_concat h
    have hsub : ∀ e ∈ edges, e ∈ edges ++ [(c, p)] := fun e he => List.mem_append_left _ he
    have hlast : (c, p) ∈ edges ++ [(c, p)] := by simp
    have hmono : ∀ {a b}, ConnectedAvoiding edges v a b → ConnectedAvoiding (edges ++ [(c, p)]) v a b :=
      fun hab => eqvGen_of_rel (fun a b h => .rel _ _ ⟨hsub _ h.1, h.2⟩) hab
    have hold : ∀ x, rep edges x = v → x ≠ v →
        ∃ w, (w, v) ∈ edges ++ [(c, p)] ∧ ConnectedAvoiding (edges ++ [(c, p)]) v x w := by
      intro x hx hne
      obtain ⟨w, hw, hxw⟩ := ih hv x ((rep_eq_iff edges x v).mp (hx.trans hv.symm)) hne
      exact ⟨w, hsub _ hw, hmono hxw⟩
    intro x hx hne
    have hrep : rep (edges ++ [(c, p)]) x = v := ((rep_eq_iff _ x v).mpr hx).trans h
    rw [rep_concat, join] at hrep
    split_ifs at hrep with hxc
    · by_cases hxv : rep edges x = v
      · exact hold x hxv hne
      have hapart : ¬Connected edges x v := fun hcon => hxv (((rep_eq_iff edges x v).mpr hcon).trans hv)
      have hpath := hmono (connectedAvoiding_of_not_connected ((rep_eq_iff edges x c).mp hxc) hapart)
      by_cases hpv : p = v
      · exact ⟨c, hpv ▸ hlast, hpath⟩
      · have hcv : c ≠ v := by
          rintro rfl
          exact hxv (hxc.trans hv)
        obtain ⟨w, hw, hpw⟩ := hold p hrep hpv
        exact ⟨w, hw, (hpath.trans _ _ _ (.rel _ _ ⟨hlast, hcv, hpv⟩)).trans _ _ _ hpw⟩
    · exact hold x hrep hne

section Heads
variable (S : α → Prop)

structure Heads (edges : List (α × α)) (r : α → α) : Prop where
  head : ∀ v, S v → r v = v
  sound : ∀ x y, r x = r y → Connected edges x y

variable {S}

lemma sound_join {r : α → α} (hr : ∀ x y, r x = r y → Connected edges x y) {c p : α} (he : (c, p) ∈ edges)
    (x y : α) (h : join r (c, p) x = join r (c, p) y) : Connected edges x y := by
  have hcp := Connected.edge he
  simp only [join] at h
  split_ifs at h with hx hy hy
  · exact (hr x c hx).trans (hr c y hy.symm)
  · exact ((hr x c hx).trans hcp).trans (hr p y h)
  · exact (hr x p h).trans (hcp.symm.trans (hr c y hy.symm))
  · exact hr x y h

lemma Heads.foldl_into (hapart : ∀ u v, S u → S v → Connected edges u v → u = v) {into : List (α × α)}
    (hinto : ∀ e ∈ into, e ∈ edges ∧ S e.2) {r : α → α} (h : Heads S edges r) :
    Heads S edges (into.foldl join r) := by
  induction into generalizing r with
  | nil => exact h
  | cons e into ih =>
    obtain ⟨c, p⟩ := e
    obtain ⟨he, hp⟩ := hinto (c, p) List.mem_cons_self
    refine ih (fun e hm => hinto e (List.mem_cons_of_mem _ hm)) ⟨fun v hv => ?_, sound_join h.sound he⟩
    rw [join]
    split_ifs with hvc
    · have hvp : v = p := hapart v p hv hp ((h.sound v c hvc).trans (.edge he))
      rw [hvp]
      exact h.head p hp
    · exact h.head v hv

lemma foldl_join_of_whole {r : α → α} (h : ∀ v, S v → ∀ x, r x = v ↔ Connected edges x v) {others : List (α × α)}
    (hothers : ∀ e ∈ others, e ∈ edges) {v : α} (hv : S v) (x : α) :
    others.foldl join r x = v ↔ Connected edges x v := by
  induction others generalizing r with
  | nil => exact h v hv x
  | cons e others ih =>
    obtain ⟨c, p⟩ := e
    have hcp : Connected edges c p := .edge (hothers _ List.mem_cons_self)
    refine ih (fun v hv x => ?_) fun e hm => hothers e (List.mem_cons_of_mem _ hm)
    rw [join, ← h v hv x]
    split_ifs with hxc
    · rw [hxc, h v hv, h v hv]
      exact ⟨hcp.trans, hcp.symm.trans⟩
    · exact Iff.rfl

omit [DecidableEq α] in
lemma connected_of_avoiding {free : List (α × α)} (hfree : ∀ e ∈ edges, ¬S e.1 → ¬S e.2 → e ∈ free)
    (hapart : ∀ u v, S u → S v → Connected edges u v → u = v) {v : α} (hv : S v) {x w : α}
    (h : ConnectedAvoiding edges v x w) (hx : Connected edges x v) : Connected free x w := by
  have hweak : ∀ {a b}, ConnectedAvoiding edges v a b → Connected edges a b :=
    fun hab => eqvGen_of_rel (fun a b he => .rel _ _ he.1) hab
  induction h with
  | rel a b hab =>
    obtain ⟨he, hav, hbv⟩ := hab
    have hb : Connected edges b v := (Connected.edge he).symm.trans hx
    exact .edge (hfree _ he (fun ha => hav (hapart a v ha hv hx)) fun hb' => hbv (hapart b v hb' hv hb))
  | refl a => exact .refl free a
  | symm a b hab ih => exact (ih ((hweak hab).trans hx)).symm
  | trans a b c hab _ ih ih' => exact (ih hx).trans (ih' ((hweak hab).symm.trans hx))

theorem exists_perm_rep [DecidablePred S] (hapart : ∀ u v, S u → S v → Connected edges u v → u = v)
    (hlead : ∀ v, S v → CanLead edges v) : ∃ edges', edges'.Perm edges ∧ ∀ v, S v → rep edges' v = v := by
  let free := edges.filter fun e => ¬S e.1 ∧ ¬S e.2
  let touching := edges.filter fun e => !decide (¬S e.1 ∧ ¬S e.2)
  let into := touching.filter fun e => S e.2
  let others := touching.filter fun e => !decide (S e.2)
  have hperm : (free ++ (into ++ others)).Perm edges :=
    ((List.filter_append_perm _ touching).append_left free).trans (List.filter_append_perm _ edges)
  refine ⟨free ++ (into ++ others), hperm, fun v hv => ?_⟩
  have mem_free : ∀ e, e ∈ free ↔ e ∈ edges ∧ ¬S e.1 ∧ ¬S e.2 := fun e => by simp [free]
  have mem_into : ∀ e, e ∈ into ↔ e ∈ edges ∧ S e.2 := fun e => by
    simp only [into, touching, List.mem_filter, decide_eq_true_eq, Bool.not_eq_true', decide_eq_false_iff_not]
    tauto
  have hfree : Heads S edges (rep free) := by
    refine ⟨fun u hu => ?_, fun x y hxy => ((rep_eq_iff free x y).mp hxy).mono fun e he => ((mem_free e).mp he).1⟩
    refine ((connected_rep free u).iff_of_edges (P := fun x => x = u) fun a b hab => ?_).mp rfl
    obtain ⟨-, ha, hb⟩ := (mem_free _).mp hab
    exact iff_of_false (fun h => ha (h ▸ hu)) fun h => hb (h ▸ hu)
  have hinto : Heads S edges (rep (free ++ into)) := by
    rw [rep, List.foldl_append]
    exact hfree.foldl_into hapart fun e he => (mem_into e).mp he
  have hwhole : ∀ u, S u → ∀ x, rep (free ++ into) x = u ↔ Connected edges x u := by
    intro u hu x
    refine ⟨fun h => hinto.sound x u (h.trans (hinto.head u hu).symm), fun hx => ?_⟩
    by_cases hxu : x = u
    · rw [hxu, hinto.head u hu]
    obtain ⟨w, hw, hpath⟩ := hlead u hu x hx hxu
    have hxw : Connected free x w :=
      connected_of_avoiding (fun e he h1 h2 => (mem_free e).mpr ⟨he, h1, h2⟩) hapart hu hpath hx
    have hconn : Connected (free ++ into) x u :=
      (hxw.mono fun e he => List.mem_append_left _ he).trans
        (.edge (List.mem_append_right _ ((mem_into _).mpr ⟨hw, hu⟩)))
    rw [(rep_eq_iff _ x u).mpr hconn, hinto.head u hu]
  rw [← List.append_assoc, rep, List.foldl_append]
  refine (foldl_join_of_whole hwhole (fun e he => ?_) hv v).mpr (.refl edges v)
  exact (List.mem_filter.mp (List.mem_filter.mp he).1).1

end Heads

end AgentTrajectory.UnionOrder
