import AgentTrajectory.SheetReading
import AgentTrajectory.RelatedLists

/-! Which message a label of a rendered sheet is given. The rounds of the reader are those of
`NearestSettling`, over the lines of a card and the places of the events that fit them. -/
namespace AgentTrajectory.GoldAdjudications
open PyText PyDict PyJson RouteDay GoldReviewSheet NearestSettling RelatedLists

def sole {α : Type*} : List α → Option α
  | [a] => some a
  | _ => none

section Condition
variable (env : RouteEnv) (evs : List SheetEvent) (w : Window)

def fitPlaces (line : ReviewLine) : List (Fin evs.length) :=
  (List.finRange evs.length).filter fun i => fits env line (evs.get i)

def candidates (x : ReviewLine × ℕ) : List ℕ := (fitPlaces env evs x.1).map Fin.val

def certain (items : List (ReviewLine × ℕ)) : List ((ReviewLine × ℕ) × ℕ) :=
  items.filterMap fun x => (sole (candidates env evs x)).map fun p => (x, p)

def uncertain (items : List (ReviewLine × ℕ)) : List (ReviewLine × ℕ) :=
  items.filter fun x => sole (candidates env evs x) = none

/-- No line can be taken for another message; with each line stands the place of the message that is
meant. An event that alone fits a line is the one that is meant; and starting from these lines, as
the span of the messages found widens, a strictly nearest event among several that fit a line is
always the one that is meant. -/
def Unmistaken (items : List (ReviewLine × ℕ)) : Prop :=
  (∀ e ∈ certain env evs items, e.2 = e.1.2) ∧
    ∀ k, NoneMisled Prod.snd (candidates env evs) ((widen Prod.snd (candidates env evs))^[k]
      ((certain env evs items).map Prod.fst, uncertain env evs items))

def ShownOn (card : Card) (label m : PyStr) : Prop :=
  ∃ p ∈ (shownPlaces evs w card).zipIdx, lineLabel (p.2 + 1) = label ∧ (evs.get p.1).msgId = m

/-- `render` put the message on the line with the label of the card with the number. -/
def PutOn (cards : List Card) (no : ℕ) (label m : PyStr) : Prop :=
  ∃ c ∈ cards.zipIdx, c.2 + 1 = no ∧ ShownOn evs w c.1 label m

instance (card : Card) (label m : PyStr) : Decidable (ShownOn evs w card label m) :=
  inferInstanceAs (Decidable (∃ p ∈ _, _))

instance (cards : List Card) (no : ℕ) (label m : PyStr) :
    Decidable (PutOn evs w cards no label m) :=
  inferInstanceAs (Decidable (∃ c ∈ _, _))

/-- Every label that is read back from the sheet names the message that was put on its line. -/
def LabelsRight (cards : List Card) : Prop :=
  ∀ no res label r, get? (parseReviewSheet env evs (render env evs w cards)) no = some res →
    get? res.1 label = some r → PutOn evs w cards no label r.msgId

/-- The lines that the reader finds under each heading. -/
def readCards (text : PyStr) : List (ℕ × List ReviewLine) :=
  (sections env (text.splitOn (cp '\n'))).2.map fun c =>
    (c.1, (splitlines (bodyText c.2)).filterMap (readLine env))

/-- A line that is read, with the place of the message that was put on the line of its label; where
there is no such line it is a place that no event has. -/
def meant (cards : List Card) (no : ℕ) (line : ReviewLine) : ReviewLine × ℕ :=
  (line, ((List.finRange evs.length).find? fun i =>
    PutOn evs w cards no line.label (evs.get i).msgId).elim evs.length Fin.val)

end Condition

variable {env : RouteEnv} {evs : List SheetEvent} {w : Window} {cards : List Card} {card : Card}

lemma sole_map {α β : Type*} (f : α → β) (l : List α) : sole (l.map f) = (sole l).map f := by
  rcases l with - | ⟨a, - | ⟨b, l⟩⟩ <;> rfl

lemma fitting_eq (line : ReviewLine) :
    fitting env evs line = (fitPlaces env evs line).map fun i => (evs.get i).msgId := by
  have hevs : evs = (List.finRange evs.length).map evs.get := (List.map_get_finRange evs).symm
  rw [fitting, fitPlaces]
  conv_lhs => rw [hevs]
  rw [List.filter_map, List.map_map]
  rfl

lemma msgId_inj (hids : (evs.map SheetEvent.msgId).Nodup) {i j : Fin evs.length}
    (h : (evs.get i).msgId = (evs.get j).msgId) : i = j := by
  have hinj := List.nodup_map_iff_inj_on (List.nodup_finRange _) |>.mp
    (show ((List.finRange evs.length).map fun i => (evs.get i).msgId).Nodup by
      have hmap := @List.map_map _ _ _ SheetEvent.msgId evs.get (List.finRange evs.length)
      rw [List.map_get_finRange] at hmap
      exact hmap ▸ hids)
  exact hinj i (List.mem_finRange i) j (List.mem_finRange j) h

lemma get?_placeOf (hids : (evs.map SheetEvent.msgId).Nodup) (i : Fin evs.length) :
    get? (placeOf evs) (evs.get i).msgId = some i := by
  have hkeys : keys ((List.finRange evs.length).map fun i => ((evs.get i).msgId, i)) =
      evs.map SheetEvent.msgId := by
    rw [keys, List.map_map]
    conv_rhs => rw [← List.map_get_finRange evs]
    rw [List.map_map]
    rfl
  rw [placeOf, ofPairs_of_nodup (by rwa [hkeys])]
  exact get?_of_mem (by rwa [hkeys]) (List.mem_map_of_mem (List.mem_finRange i))

lemma first_strict {α : Type*} {key : α → ℕ} {a b : α} {l : List α}
    (hsorted : (a :: b :: l).Pairwise fun x y => key x ≤ key y)
    (hnodup : (a :: b :: l).Nodup) (c : α) :
    (if key a = key b then none else some a) = some c ↔ c ∈ a :: b :: l ∧ ∀ x ∈ a :: b :: l,
    x ≠ c → key c < key x := by
  have hab := (List.pairwise_cons.mp hsorted).1
  have hb := (List.pairwise_cons.mp (List.pairwise_cons.mp hsorted).2).1
  have hne : a ≠ b := fun he => (List.nodup_cons.mp hnodup).1 (he ▸ List.mem_cons_self)
  constructor
  · intro h
    split_ifs at h with hkey
    obtain rfl := Option.some.inj h
    refine ⟨List.mem_cons_self, fun x hx hxa => ?_⟩
    have hlt : key a < key b := lt_of_le_of_ne (hab b List.mem_cons_self) hkey
    rcases List.mem_cons.mp hx with rfl | hx
    · exact absurd rfl hxa
    · rcases List.mem_cons.mp hx with rfl | hx
      · exact hlt
      · exact hlt.trans_le (hb x hx)
  · rintro ⟨hc, hleast⟩
    have hca : c = a := by
      by_contra hca
      have hlt := hleast a List.mem_cons_self (Ne.symm hca)
      have hle := hab c ((List.mem_cons.mp hc).resolve_left hca)
      omega
    subst hca
    rw [if_neg (hleast b (List.mem_cons_of_mem _ List.mem_cons_self) hne.symm).ne]

def IdAt (evs : List SheetEvent) (m : PyStr) (p : ℕ) :
    Prop := ∃ i : Fin evs.length, (evs.get i).msgId = m ∧ i.val = p

lemma scored_perm (hids : (evs.map SheetEvent.msgId).Nodup) (lo hi : ℕ)
    (ps : List (Fin evs.length)) :
    (scored evs lo hi (ps.map fun i => (evs.get i).msgId)).Perm
      (ps.map fun i => (distance lo hi i.val, i.val, (evs.get i).msgId)) := by
  have hfound : ((ps.map fun i => (evs.get i).msgId).filterMap fun m =>
      (get? (placeOf evs) m).map fun pos => (distance lo hi pos.val, pos.val, m)) =
        ps.map fun i => (distance lo hi i.val, i.val, (evs.get i).msgId) := by
    rw [List.filterMap_map]
    rw [← List.filterMap_eq_map]
    refine List.filterMap_congr fun i _ => ?_
    simp only [Function.comp_apply]
    rw [get?_placeOf hids]
    rfl
  rw [scored, hfound]
  exact List.perm_insertionSort _ _

lemma scored_sorted (lo hi : ℕ) (found : List PyStr) :
    (scored evs lo hi found).Pairwise fun a b => a.1 ≤ b.1 := by
  let r : ℕ × ℕ × PyStr → ℕ × ℕ × PyStr → Prop := fun a b =>
    toLex (a.1, toLex (a.2.1, a.2.2)) ≤ toLex (b.1, toLex (b.2.1, b.2.2))
  have : Std.Total r := ⟨fun a b => le_total (toLex (a.1, toLex (a.2.1, a.2.2))) _⟩
  have : IsTrans _ r := ⟨fun _ _ _ h h' => le_trans h h'⟩
  refine (List.pairwise_insertionSort r _).imp fun {a b} h => ?_
  rcases Prod.Lex.toLex_le_toLex.mp h with h | h
  · exact h.le
  · exact h.1.le

def entry (evs : List SheetEvent) (lo hi : ℕ) (i : Fin evs.length) : ℕ × ℕ × PyStr :=
  (distance lo hi i.val, i.val, (evs.get i).msgId)

lemma entry_injective (lo hi : ℕ) : Function.Injective (entry evs lo hi) :=
  fun _ _ h => Fin.ext (Prod.mk.inj (Prod.mk.inj h).2).1

lemma least_scored_iff (hids : (evs.map SheetEvent.msgId).Nodup) {lo hi : ℕ}
    {ps : List (Fin evs.length)} (s : ℕ × ℕ × PyStr) :
    (s ∈ scored evs lo hi (ps.map fun i => (evs.get i).msgId) ∧
      ∀ x ∈ scored evs lo hi (ps.map fun i => (evs.get i).msgId), x ≠ s → s.1 < x.1) ↔
        ∃ i : Fin evs.length, StrictlyNearest lo hi (ps.map Fin.val) i.val ∧
          entry evs lo hi i = s := by
  simp only [(scored_perm hids lo hi ps).mem_iff, List.mem_map]
  constructor
  · rintro ⟨⟨i, hmem, rfl⟩, hleast⟩
    refine ⟨i, ⟨List.mem_map_of_mem hmem, fun q hq hne => ?_⟩, rfl⟩
    obtain ⟨j, hj, rfl⟩ := List.mem_map.mp hq
    exact hleast (entry evs lo hi j) ⟨j, hj, rfl⟩ fun he =>
      hne (congrArg Fin.val (entry_injective lo hi he))
  · rintro ⟨i, hnear, rfl⟩
    obtain ⟨j, hj, hij⟩ := List.mem_map.mp hnear.1
    obtain rfl := Fin.ext hij
    refine ⟨⟨j, hj, rfl⟩, ?_⟩
    rintro x ⟨k, hk, rfl⟩ hne
    exact hnear.2 k.val (List.mem_map_of_mem hk) fun he =>
      hne (congrArg (entry evs lo hi) (Fin.ext he))

lemma chosen_eq_least {lo hi : ℕ} {found : List PyStr}
    (hnodup : (scored evs lo hi found).Nodup) {m : PyStr} :
    chosen evs lo hi found = some m ↔
      ∃ s, (s ∈ scored evs lo hi found ∧ ∀ x ∈ scored evs lo hi found, x ≠ s → s.1 < x.1) ∧
        s.2.2 = m := by
  have hsorted := @scored_sorted evs lo hi found
  rw [chosen]
  generalize scored evs lo hi found = sorted at hsorted hnodup
  rcases sorted with - | ⟨a, - | ⟨b, l⟩⟩
  · simp
  · simp only [List.mem_singleton, forall_eq]
    constructor
    · intro h
      exact ⟨a, ⟨rfl, fun hne => absurd rfl hne⟩, Option.some.inj h⟩
    · rintro ⟨s, ⟨rfl, -⟩, rfl⟩
      rfl
  · have hstrict := first_strict hsorted hnodup
    simp only [← hstrict]
    split_ifs <;> simp

lemma chosen_eq_some (hids : (evs.map SheetEvent.msgId).Nodup) {lo hi : ℕ}
    {ps : List (Fin evs.length)} (hps : ps.Nodup)
    {m : PyStr} : chosen evs lo hi (ps.map fun i => (evs.get i).msgId) = some m ↔
      ∃ i : Fin evs.length, StrictlyNearest lo hi (ps.map Fin.val) i.val ∧
        (evs.get i).msgId = m := by
  have hnodup : (scored evs lo hi (ps.map fun i => (evs.get i).msgId)).Nodup :=
    (scored_perm hids lo hi ps).nodup_iff.mpr (hps.map (entry_injective lo hi))
  rw [chosen_eq_least hnodup]
  constructor
  · rintro ⟨s, hs, rfl⟩
    obtain ⟨i, hnear, rfl⟩ := (least_scored_iff hids s).mp hs
    exact ⟨i, hnear, rfl⟩
  · rintro ⟨i, hnear, rfl⟩
    exact ⟨entry evs lo hi i, (least_scored_iff hids _).mpr ⟨i, hnear, rfl⟩, rfl⟩

lemma chosen_rel (hids : (evs.map SheetEvent.msgId).Nodup) (lo hi : ℕ) (x : ReviewLine × ℕ) :
    Option.Rel (IdAt evs) (chosen evs lo hi (fitting env evs x.1))
    (nearest? lo hi (candidates env evs x)) := by
  have hnodup : (fitPlaces env evs x.1).Nodup := (List.nodup_finRange _).filter _
  rw [fitting_eq]
  cases hc : chosen evs lo hi ((fitPlaces env evs x.1).map fun i => (evs.get i).msgId) with
  | none =>
    cases hn : nearest? lo hi (candidates env evs x) with
    | none => exact .none
    | some p =>
      have hnear := nearest?_eq_some.mp hn
      obtain ⟨i, -, rfl⟩ := List.mem_map.mp hnear.1
      rw [(chosen_eq_some hids hnodup).mpr ⟨i, hnear, rfl⟩] at hc
      simp at hc
  | some m =>
    obtain ⟨i, hnear, hm⟩ := (chosen_eq_some hids hnodup).mp hc
    rw [candidates, nearest?_eq_some.mpr hnear]
    exact .some ⟨i, hm, rfl⟩

lemma sole_rel (x : ReviewLine × ℕ) :
    Option.Rel (IdAt evs) (sole (fitting env evs x.1)) (sole (candidates env evs x)) := by
  rw [fitting_eq, candidates, sole_map, sole_map]
  cases sole (fitPlaces env evs x.1) with
  | none => exact .none
  | some i => exact .some ⟨i, rfl, rfl⟩

def Entry (evs : List SheetEvent) (l : PyStr × Resolved) (e : (ReviewLine × ℕ) × ℕ) : Prop :=
  l.1 = e.1.1.label ∧ IdAt evs l.2.msgId e.2

def addLabel (byContext : Bool) (labels : Dict PyStr Resolved) (line : ReviewLine)
    (m : Option PyStr) : Dict PyStr Resolved :=
  match m with
  | some m => set labels line.label ⟨line, m, byContext⟩
  | none => labels

lemma keys_of_entries {labels : Dict PyStr Resolved} {S : List ((ReviewLine × ℕ) × ℕ)}
    (h : List.Forall₂ (Entry evs) labels S) : keys labels = (S.map Prod.fst).map fun x =>
    x.1.label := by
  induction h with
  | nil => rfl
  | cons hl _ ih =>
    rw [keys, List.map_cons, ← keys, ih, hl.1]
    rfl

lemma places_of_entries (hids : (evs.map SheetEvent.msgId).Nodup) {labels : Dict PyStr Resolved}
    {S : List ((ReviewLine × ℕ) × ℕ)} (h : List.Forall₂ (Entry evs) labels S) :
    resolvedPlaces evs labels = S.map Prod.snd := by
  induction h with
  | nil => rfl
  | cons hl _ ih =>
    obtain ⟨-, i, hm, hp⟩ := hl
    rw [resolvedPlaces, List.filterMap_cons_some (b := i.val)
      (by rw [← hm, get?_placeOf hids]; rfl), ← resolvedPlaces, ih,
      List.map_cons, hp]

lemma foldl_addLabel {b : Bool} {pick : ReviewLine × ℕ → Option PyStr}
    {place : ReviewLine × ℕ → Option ℕ} (hpick : ∀ x, Option.Rel (IdAt evs) (pick x) (place x))
    {items : List (ReviewLine × ℕ)} {labels : Dict PyStr Resolved} {S : List ((ReviewLine × ℕ) × ℕ)}
    (hS : List.Forall₂ (Entry evs) labels S)
    (hnew : ((S.map Prod.fst ++ items).map fun x => x.1.label).Nodup) :
    List.Forall₂ (Entry evs) (items.foldl (fun labels x => addLabel b labels x.1 (pick x)) labels)
      (S ++ items.filterMap fun x => (place x).map fun p => (x, p)) := by
  induction items generalizing labels S with
  | nil => simpa using hS
  | cons x items ih =>
    have hrel := hpick x
    rw [List.foldl_cons]
    cases hx : place x with
    | none =>
      rw [hx] at hrel
      have hnone : pick x = none := by
        generalize pick x = o at hrel
        cases hrel
        rfl
      rw [hnone, List.filterMap_cons_none (by rw [hx]; rfl)]
      refine ih hS (hnew.sublist ?_)
      exact ((List.sublist_cons_self x items).append_left _).map _
    | some p =>
      rw [hx] at hrel
      obtain ⟨m, hm, hat⟩ : ∃ m, pick x = some m ∧ IdAt evs m p := by
        generalize pick x = o at hrel
        cases hrel with
        | some h => exact ⟨_, rfl, h⟩
      have hfresh : x.1.label ∉ keys labels := by
        rw [keys_of_entries hS]
        rw [List.map_append, List.map_cons] at hnew
        exact fun hmem => (List.nodup_append.mp hnew).2.2 _ hmem _ List.mem_cons_self rfl
      have happend : S ++ (x, p) :: (items.filterMap fun x => (place x).map fun p => (x, p)) =
          (S ++ [(x, p)]) ++ items.filterMap fun x => (place x).map fun p => (x, p) := by simp
      rw [hm, List.filterMap_cons_some (by rw [hx]; rfl), happend, addLabel, set_of_not_mem hfresh]
      refine ih (List.rel_append hS (.cons ⟨rfl, hat⟩ .nil)) ?_
      simpa using hnew

def leftOver (env : RouteEnv) (evs : List SheetEvent) (x : ReviewLine × ℕ) : Unresolved :=
  ⟨x.1, fitting env evs x.1⟩

lemma addLine_eq (acc : Dict PyStr Resolved × List Unresolved) (x : ReviewLine × ℕ) :
    addLine env evs acc x.1 = (addLabel false acc.1 x.1 (sole (fitting env evs x.1)),
      acc.2 ++ if sole (candidates env evs x) = none then [leftOver env evs x] else []) := by
  have hsame : sole (candidates env evs x) = none ↔ sole (fitting env evs x.1) = none := by
    rw [fitting_eq, candidates, sole_map, sole_map, Option.map_eq_none_iff, Option.map_eq_none_iff]
  rw [addLine, leftOver]
  simp only [hsame]
  rcases fitting env evs x.1 with - | ⟨m, - | ⟨m', found⟩⟩ <;> simp [sole, addLabel]

lemma foldl_addLine (items : List (ReviewLine × ℕ)) (acc : Dict PyStr Resolved × List Unresolved) :
    (items.map Prod.fst).foldl (addLine env evs) acc =
      (items.foldl (fun labels x => addLabel false labels x.1 (sole (fitting env evs x.1))) acc.1,
        acc.2 ++ (uncertain env evs items).map (leftOver env evs)) := by
  induction items generalizing acc with
  | nil => simp [uncertain]
  | cons x items ih =>
    rw [List.map_cons, List.foldl_cons, ih, addLine_eq, List.foldl_cons, uncertain,
      uncertain, List.filter_cons]
    by_cases hx : sole (candidates env evs x) = none
    · simp [hx]
    · simp [hx]

lemma resolveAmbiguous_entries (hids : (evs.map SheetEvent.msgId).Nodup) {n : ℕ}
    {labels : Dict PyStr Resolved} {S : List ((ReviewLine × ℕ) × ℕ)} {rest : List (ReviewLine × ℕ)}
    (hS : List.Forall₂ (Entry evs) labels S)
    (hnew : ((S.map Prod.fst ++ rest).map fun x => x.1.label).Nodup) :
    List.Forall₂ (Entry evs) (resolveAmbiguous evs n labels (rest.map (leftOver env evs))).1
      (settle (candidates env evs) n S rest).1 := by
  induction n generalizing labels S rest with
  | zero => exact hS
  | succ n ih =>
    rw [resolveAmbiguous, settle, places_of_entries hids hS]
    cases span (S.map Prod.snd) with
    | none => exact hS
    | some s =>
      obtain ⟨lo, hi⟩ := s
      have hrel := fun x => @chosen_rel env evs hids lo hi x
      have hnone : ∀ x : ReviewLine × ℕ, chosen evs lo hi (fitting env evs x.1) = none ↔
          nearest? lo hi (candidates env evs x) = none := by
        intro x
        have hx := hrel x
        generalize chosen evs lo hi (fitting env evs x.1) = m at hx
        generalize nearest? lo hi (candidates env evs x) = p at hx
        cases hx <;> simp
      have hleft : ((rest.map (leftOver env evs)).filter fun u => chosen evs lo hi u.found = none) =
          (rest.filter fun x => nearest? lo hi (candidates env evs x) = none).map
            (leftOver env evs) := by
        rw [List.filter_map]
        congr 1
        refine List.filter_congr fun x _ => ?_
        simp only [Function.comp_apply, leftOver, hnone]
      have hlength : ((rest.filter fun x => nearest? lo hi (candidates env evs x) = none).map
        (leftOver env evs)).length =
          (rest.map (leftOver env evs)).length ↔
            (rest.filterMap fun x => (nearest? lo hi (candidates env evs x)).map fun p => (x, p)) =
              [] := by
        rw [List.length_map, List.length_map, List.length_filter_eq_length_iff,
          List.filterMap_eq_nil_iff]
        simp
      dsimp only
      simp only [hleft, hlength]
      split_ifs
      · exact hS
      · have hfold := @foldl_addLabel evs true _ _ hrel rest labels S hS hnew
        rw [List.foldl_map]
        refine ih hfold ?_
        have hperm := (round_perm (fun x => nearest? lo hi (candidates env evs x)) rest).append_left
          (S.map Prod.fst)
        rw [← List.append_assoc, ← List.map_append] at hperm
        exact (hperm.map _).nodup_iff.mpr hnew

lemma lineLabel_inj {m n : ℕ} (h : lineLabel m = lineLabel n) : m = n := by
  rw [← digitsValue_natDigits m, List.append_cancel_left h, digitsValue_natDigits]

lemma label_of_lookup {n : ℕ} {e : SheetEvent} {line : ReviewLine}
    (h : lookup env card n e = some line) :
    line.label = lineLabel n := by
  rw [lookup] at h
  split_ifs at h
  obtain rfl := Option.some.inj h
  rfl

lemma mem_lookups {x : ReviewLine × ℕ} (h : x ∈ lookups env evs w card) :
    ∃ p ∈ (shownPlaces evs w card).zipIdx, x.1.label = lineLabel (p.2 + 1) ∧ p.1.val = x.2 := by
  obtain ⟨p, hp, hx⟩ := List.mem_filterMap.mp h
  obtain ⟨line, hline, rfl⟩ := Option.map_eq_some_iff.mp hx
  exact ⟨p, hp, label_of_lookup hline, rfl⟩

lemma labels_sublist (ps : List (Fin evs.length × ℕ)) :
    ((ps.filterMap fun p => (lookup env card (p.2 + 1) (evs.get p.1)).map fun l =>
      (l, p.1.val)).map fun x => x.1.label).Sublist
      (ps.map fun p => lineLabel (p.2 + 1)) := by
  induction ps with
  | nil => exact .slnil
  | cons p ps ih =>
    rw [List.map_cons]
    cases hp : lookup env card (p.2 + 1) (evs.get p.1) with
    | none =>
      rw [List.filterMap_cons_none (by rw [hp]; rfl)]
      exact ih.cons _
    | some line =>
      rw [List.filterMap_cons_some (by rw [hp]; rfl), List.map_cons, label_of_lookup hp]
      exact ih.cons_cons _

lemma labels_nodup (env : RouteEnv) (evs : List SheetEvent) (w : Window) (card : Card) :
    ((lookups env evs w card).map fun x => x.1.label).Nodup := by
  refine (labels_sublist _).nodup ?_
  have hindices : ((shownPlaces evs w card).zipIdx.map Prod.snd).Nodup := by
    rw [List.zipIdx_map_snd]
    exact List.nodup_range'
  have hmap := hindices.map (f := fun n => lineLabel (n + 1)) fun m n h => by
    have := lineLabel_inj h
    omega
  rwa [List.map_map] at hmap

lemma place_of_index {p q : Fin evs.length × ℕ} {ps : List (Fin evs.length)}
    (hp : p ∈ ps.zipIdx) (hq : q ∈ ps.zipIdx) (h : p.2 = q.2) : p.1 = q.1 := by
  have hp := List.mem_zipIdx_iff_getElem?.mp hp
  have hq := List.mem_zipIdx_iff_getElem?.mp hq
  rw [h] at hp
  exact Option.some.inj (hp.symm.trans hq)

lemma resolveCard_entries (hids : (evs.map SheetEvent.msgId).Nodup) {items : List (ReviewLine × ℕ)}
    (hnodup : (items.map fun x => x.1.label).Nodup) :
    List.Forall₂ (Entry evs) (resolveCard env evs (items.map Prod.fst)).1
      (settle (candidates env evs) ((uncertain env evs items).length + 1) (certain env evs items)
        (uncertain env evs items)).1 := by
  have hread : List.Forall₂ (Entry evs)
    (items.foldl (fun labels x => addLabel false labels x.1 (sole (fitting env evs x.1))) [])
      (certain env evs items) :=
    foldl_addLabel (fun x => sole_rel x) .nil (by simpa using hnodup)
  have hperm := round_perm (fun x => sole (candidates env evs x)) items
  rw [resolveCard, foldl_addLine, List.nil_append, List.length_map]
  exact resolveAmbiguous_entries hids hread ((hperm.map _).nodup_iff.mpr hnodup)

lemma resolveCard_right_iff (hids : (evs.map SheetEvent.msgId).Nodup)
    {items : List (ReviewLine × ℕ)}
    (hnodup : (items.map fun x => x.1.label).Nodup) {P : PyStr → PyStr → Prop}
    (hP : ∀ x ∈ items, ∀ i : Fin evs.length, P x.1.label (evs.get i).msgId ↔ i.val = x.2) :
    (∀ label r, get? (resolveCard env evs (items.map Prod.fst)).1 label =
      some r → P label r.msgId) ↔
      Unmistaken env evs items := by
  have hentries := @resolveCard_entries env evs hids _ hnodup
  have hperm := @settle_perm _ (candidates env evs) ((uncertain env evs items).length + 1)
    (certain env evs items) (uncertain env evs items)
  have hsplit := hperm.trans (round_perm (fun x => sole (candidates env evs x)) items)
  rw [Unmistaken, ← settle_right_iff (Nat.lt_succ_self _)]
  generalize settle (candidates env evs) _ _ _ = settled at hentries hsplit
  generalize (resolveCard env evs _).1 = labels at hentries
  have hkeys : (keys labels).Nodup := by
    rw [keys_of_entries hentries]
    have hsettled := (hsplit.map fun x => x.1.label).nodup_iff.mpr hnodup
    rw [List.map_append] at hsettled
    exact (List.nodup_append.mp hsettled).1
  have hitem : ∀ e ∈ settled.1, e.1 ∈ items := fun e he =>
    hsplit.mem_iff.mp (List.mem_append_left _ (List.mem_map_of_mem he))
  constructor
  · intro h e he
    obtain ⟨l, hl, hlabel, i, hm, hp⟩ := forall₂_mem_right hentries he
    have hright := h l.1 l.2 (get?_of_mem hkeys hl)
    rw [hlabel, ← hm, hP e.1 (hitem e he)] at hright
    rw [← hp, hright]
  · intro h label r hget
    obtain ⟨e, he, hlabel, i, hm, hp⟩ := forall₂_mem_left hentries (mem_of_get? hget)
    obtain rfl : label = e.1.1.label := hlabel
    rw [← hm, hP e.1 (hitem e he), hp, h e he]

lemma shownOn_iff (hids : (evs.map SheetEvent.msgId).Nodup) {x : ReviewLine × ℕ}
    (hx : x ∈ lookups env evs w card)
    (i : Fin evs.length) : ShownOn evs w card x.1.label (evs.get i).msgId ↔ i.val = x.2 := by
  obtain ⟨q, hq, hlabel, hplace⟩ := mem_lookups hx
  constructor
  · rintro ⟨p, hp, hline, hm⟩
    have hindex : p.2 = q.2 := by
      have := lineLabel_inj (hline.trans hlabel)
      omega
    rw [← msgId_inj hids hm, place_of_index hp hq hindex, hplace]
  · intro hi
    obtain rfl : i = q.1 := Fin.ext (hi.trans hplace.symm)
    exact ⟨q, hq, hlabel.symm, rfl⟩

lemma putOn_unique (hids : (evs.map SheetEvent.msgId).Nodup) {no : ℕ}
    {label : PyStr} {i j : Fin evs.length} (hi : PutOn evs w cards no label (evs.get i).msgId)
    (hj : PutOn evs w cards no label (evs.get j).msgId) : i = j := by
  obtain ⟨c, hc, rfl, p, hp, hline, hm⟩ := hi
  obtain ⟨c', hc', hno, q, hq, hline', hm'⟩ := hj
  have hc := List.mem_zipIdx_iff_getElem?.mp hc
  have hc' := List.mem_zipIdx_iff_getElem?.mp hc'
  rw [Nat.succ.inj hno, hc] at hc'
  rw [← Option.some.inj hc'] at hq
  have hindex : p.2 = q.2 := by
    have := lineLabel_inj (hline.trans hline'.symm)
    omega
  rw [← msgId_inj hids hm, ← msgId_inj hids hm', place_of_index hp hq hindex]

lemma putOn_iff (hids : (evs.map SheetEvent.msgId).Nodup) (no : ℕ)
    (line : ReviewLine) (i : Fin evs.length) :
    PutOn evs w cards no line.label (evs.get i).msgId ↔ i.val = (meant evs w cards no line).2 := by
  rw [meant]
  cases hfound : (List.finRange evs.length).find? fun i =>
    PutOn evs w cards no line.label (evs.get i).msgId with
  | none =>
    have hnone := List.find?_eq_none.mp hfound i (List.mem_finRange i)
    refine iff_of_false (by simpa using hnone) ?_
    exact i.isLt.ne
  | some j =>
    have hj : PutOn evs w cards no line.label (evs.get j).msgId := by
      simpa using List.find?_some hfound
    exact ⟨fun hi => congrArg Fin.val (putOn_unique hids hi hj), fun hi => Fin.ext hi ▸ hj⟩

section Repeated

def asciiSheet : RouteEnv := ⟨TaskStitch.asciiEnv, fun _ => .error .valueError, fun _ => []⟩

/-- The same short message twice, once in front of the exchange and once in it. -/
def repeatedEvents : List SheetEvent :=
  [⟨py "e0", [], py "user", some (py "廉莲"), py "继续"⟩,
    ⟨py "e1", [], py "user", some (py "廉莲"), py "修登录"⟩,
    ⟨py "e2", py "e1", py "bot", some (py "claude"), py "改了数据库"⟩,
      ⟨py "e3", [], py "user", some (py "廉莲"), py "继续"⟩,
    ⟨py "e4", py "e2", py "user", some (py "廉莲"), py "不对"⟩]

def repeatedCard : Card := ⟨py "e4", py "e2", py "e1", py "改了数据库", [py "改错了"], [py "run3_survive"]⟩

lemma asciiSheet_classes : SheetClasses asciiSheet where
  digit := by decide
  star := by decide
  space := by decide
  wideSpace := by decide
  notWord := by decide

lemma repeated_clean : ShownClean asciiSheet repeatedEvents defaultWindow [repeatedCard] where
  names := by decide +kernel
  texts := by decide +kernel
  offs := by decide +kernel
  srcs := by decide +kernel
  quotes := by decide +kernel
  whats := by decide +kernel

lemma repeated_read : (get? (parseReviewSheet asciiSheet repeatedEvents
      (render asciiSheet repeatedEvents defaultWindow [repeatedCard])) 1).map (fun res =>
        res.1.map fun l => (l.1, l.2.msgId)) =
    some [(py "L2", py "e1"), (py "L3", py "e2"), (py "L5", py "e4"), (py "L1", py "e3"),
      (py "L4", py "e3")] := by
  rw [parse_render asciiSheet_classes repeated_clean]
  decide +kernel

end Repeated

end AgentTrajectory.GoldAdjudications
