import AgentTrajectory.PyDict
import AgentTrajectory.RelatedLists

/-! Writers that append to files under one lock. A writer takes the lock, opens its file, writes its
pieces into the buffer of its handle and gives the lock back when the handle is closed; the buffer
may reach the file at any time and in any parts. Whatever the order of the steps, the files read as
if each writer had appended its text in one go. -/
namespace AgentTrajectory.LockedAppend
open PyDict

variable {ι φ α : Type*}

structure Holder (ι α : Type*) where
  writer : ι
  todo : List (List α)
  buffer : List α

/-- The files, the holder of the lock and the writers that are done, each with its success. -/
structure State (ι φ α : Type*) where
  files : Dict φ (List α)
  holder : Option (Holder ι α)
  results : List (ι × Bool)

def State.empty : State ι φ α := ⟨[], none, []⟩

inductive Step (ι : Type*)
  | enter (i : ι)
  | write
  | flush (n : ℕ)
  | close
  | abort (n : ℕ)

def State.owner (s : State ι φ α) : List ι := s.holder.toList.map Holder.writer

def State.entered (s : State ι φ α) : List ι := s.results.map Prod.fst ++ s.owner

def State.content [DecidableEq φ] (s : State ι φ α) (f : φ) : List α := (get? s.files f).getD []

section Machine
variable [DecidableEq ι] [DecidableEq φ] (file : ι → φ) (pieces : ι → List (List α))

def step (s : State ι φ α) : Step ι → State ι φ α
  | .enter i =>
      if s.holder.isNone ∧ i ∉ s.entered then
        { s with files := extendAt s.files (file i) [], holder := some ⟨i, pieces i, []⟩ }
      else s
  | .write =>
      match s.holder with
      | some ⟨i, piece :: todo, buffer⟩ => { s with holder := some ⟨i, todo, buffer ++ piece⟩ }
      | _ => s
  | .flush n =>
      match s.holder with
      | some ⟨i, todo, buffer⟩ =>
          { s with
            files := extendAt s.files (file i) (buffer.take n)
            holder := some ⟨i, todo, buffer.drop n⟩ }
      | none => s
  | .close =>
      match s.holder with
      | some ⟨i, [], buffer⟩ => ⟨extendAt s.files (file i) buffer, none, s.results ++ [(i, true)]⟩
      | _ => s
  | .abort n =>
      match s.holder with
      | some ⟨i, _, buffer⟩ => ⟨extendAt s.files (file i) (buffer.take n), none,
        s.results ++ [(i, false)]⟩
      | none => s

end Machine

/-- What a writer has put into its file. -/
structure Block (ι α : Type*) where
  writer : ι
  text : List α

section Blocks
variable [DecidableEq φ] (file : ι → φ) (pieces : ι → List (List α))

def written (log : List (Block ι α)) (f : φ) :
    List α := (log.filter fun b => file b.writer = f).flatMap Block.text

/-- A writer that succeeded has put its text into the file as a whole, and one that failed a part
from the front. -/
def Closes (b : Block ι α) (r : ι × Bool) : Prop :=
  b.writer = r.1 ∧ b.text <+: (pieces b.writer).flatten ∧
    (r.2 = true → b.text = (pieces b.writer).flatten)

/-- The block of the holder: what has reached the file, with the buffer and the pieces still to be
written behind it, is the whole text. -/
def Opens : Option (Holder ι α) → List (Block ι α) → Prop
  | none, opened => opened = []
  | some h, opened => ∃ done, opened = [⟨h.writer, done⟩] ∧
      done ++ (h.buffer ++ h.todo.flatten) = (pieces h.writer).flatten

/-- The blocks that explain a state: those of the writers that are done, in the order in which they
gave the lock back, and that of the holder. -/
structure Explains (closed opened : List (Block ι α)) (s : State ι φ α) : Prop where
  files : ∀ f, s.content f = written file (closed ++ opened) f
  done : List.Forall₂ (Closes pieces) closed s.results
  current : Opens pieces s.holder opened
  named : ∀ f, f ∈ keys s.files ↔ ∃ b ∈ closed ++ opened, file b.writer = f
  distinct : (keys s.files).Nodup
  once : s.entered.Nodup

end Blocks

section Runs
variable [DecidableEq φ] {file : ι → φ} {pieces : ι → List (List α)} {s : State ι φ α}
    {closed : List (Block ι α)}

lemma written_append (log later : List (Block ι α)) (f : φ) :
    written file (log ++ later) f = written file log f ++ written file later f := by
  simp [written]

lemma written_singleton (b : Block ι α) (f : φ) :
    written file [b] f = if file b.writer = f then b.text else [] := by
  by_cases h : file b.writer = f
  · simp [written, h]
  · simp [written, h]

lemma getD_extendAt (files : Dict φ (List α)) (f g : φ) (text : List α) :
    (get? (extendAt files f text) g).getD [] = (get? files g).getD [] ++ if f =
      g then text else [] := by
  rw [extendAt, get?_set]
  by_cases h : f = g
  · simp [h]
  · simp [h]

lemma content_extend {i : ι} {done text : List α}
    (hfiles : ∀ g, s.content g = written file (closed ++ [⟨i, done⟩]) g) (g : φ) :
    (get? (extendAt s.files (file i) text) g).getD [] =
      written file (closed ++ [⟨i, done ++ text⟩]) g := by
  have hg : (get? s.files g).getD [] = _ := hfiles g
  rw [getD_extendAt, hg, written_append, written_append, written_singleton, written_singleton]
  by_cases h : file i = g
  · simp [h]
  · simp [h]

lemma named_extend {opened : List (Block ι α)} {i : ι} {text : List α} (done : List α)
    (hnamed : ∀ f, f ∈ keys s.files ↔ ∃ b ∈ closed ++ opened, file b.writer = f)
    (hopened : ∀ b ∈ opened, b.writer = i) (f : φ) :
    f ∈ keys (extendAt s.files (file i) text) ↔ ∃ b ∈ closed ++ [⟨i, done⟩], file b.writer = f := by
  rw [extendAt, mem_keys_set, hnamed]
  constructor
  · rintro (⟨b, hb, rfl⟩ | rfl)
    · rcases List.mem_append.mp hb with hb | hb
      · exact ⟨b, by simp [hb], rfl⟩
      · exact ⟨⟨i, done⟩, by simp, by rw [hopened b hb]⟩
    · exact ⟨⟨i, done⟩, by simp, rfl⟩
  · rintro ⟨b, hb, rfl⟩
    rcases List.mem_append.mp hb with hb | hb
    · exact .inl ⟨b, by simp [hb], rfl⟩
    · rw [List.mem_singleton.mp hb]
      exact .inr rfl

lemma explains_empty : Explains file pieces [] [] (State.empty : State ι φ α) :=
  ⟨fun _ => rfl, .nil, rfl, by simp [State.empty, keys], by simp [State.empty,
    keys], by simp [State.entered, State.owner, State.empty]⟩

lemma Explains.step_enter {opened : List (Block ι α)}
    (h : Explains file pieces closed opened s) {i : ι}
    (hfree : s.holder = none) (hi : i ∉ s.entered) :
    Explains file pieces closed [⟨i, []⟩]
      { s with files := extendAt s.files (file i) [], holder := some ⟨i, pieces i, []⟩ } := by
  have hopened : opened = [] := by simpa [hfree, Opens] using h.current
  subst hopened
  refine ⟨fun g => ?_, h.done, ⟨[], rfl, rfl⟩, named_extend [] h.named (by simp),
    keys_nodup_set h.distinct _ _, ?_⟩
  · have hg : (get? s.files g).getD [] = _ := h.files g
    change (get? (extendAt s.files (file i) []) g).getD [] = _
    rw [getD_extendAt, hg, List.append_nil, written_append, written_singleton]
  · have honce : (s.results.map Prod.fst).Nodup := by simpa [State.entered,
      State.owner, hfree] using h.once
    have hnew : i ∉ s.results.map Prod.fst := by simpa [State.entered, State.owner, hfree] using hi
    exact List.Nodup.append honce (List.nodup_singleton i) (List.disjoint_singleton.mpr hnew)

lemma Explains.step_leave {i : ι} {done text buffer : List α} {todo : List (List α)} {ok : Bool}
    (h : Explains file pieces closed [⟨i, done⟩] s) (hholder : s.holder = some ⟨i, todo, buffer⟩)
    (hcloses : Closes pieces ⟨i, done ++ text⟩ (i, ok)) :
    Explains file pieces (closed ++ [⟨i, done ++ text⟩]) []
      ⟨extendAt s.files (file i) text, none, s.results ++ [(i, ok)]⟩ where
  files g := by
    rw [List.append_nil]
    exact content_extend h.files g
  done := List.rel_append h.done (.cons hcloses .nil)
  current := rfl
  named f := by
    rw [List.append_nil]
    exact named_extend _ h.named (by simp) f
  distinct := keys_nodup_set h.distinct _ _
  once := by simpa [State.entered, State.owner, hholder] using h.once

lemma Explains.blocks {opened : List (Block ι α)} (h : Explains file pieces closed opened s) :
    (closed ++ opened).map Block.writer = s.entered ∧ ∀ b ∈ closed ++ opened,
    b.text <+: (pieces b.writer).flatten := by
  have hclosed : s.results.map Prod.fst = closed.map Block.writer :=
    RelatedLists.forall₂_map_eq h.done fun b r hr => hr.1.symm
  have hopened : opened.map Block.writer = s.owner ∧ ∀ b ∈ opened,
      b.text <+: (pieces b.writer).flatten := by
    have hcurrent := h.current
    rw [State.owner]
    cases hholder : s.holder with
    | none =>
      rw [hholder] at hcurrent
      obtain rfl : opened = [] := hcurrent
      simp
    | some holder =>
      rw [hholder] at hcurrent
      obtain ⟨done, rfl, hdone⟩ := hcurrent
      simp [← hdone]
  refine ⟨by rw [List.map_append, hopened.1, State.entered, hclosed],
    List.forall_mem_append.mpr ⟨fun b hb => ?_, hopened.2⟩⟩
  obtain ⟨r, -, hr⟩ := RelatedLists.forall₂_mem_left h.done hb
  exact hr.2.1

variable [DecidableEq ι]

theorem Explains.step {opened : List (Block ι α)}
    (h : Explains file pieces closed opened s) (e : Step ι) :
    ∃ closed opened, Explains file pieces closed opened (step file pieces s e) := by
  cases hholder : s.holder with
  | none =>
    cases e with
    | enter i =>
      by_cases hi : i ∉ s.entered
      · rw [LockedAppend.step, if_pos ⟨by simp [hholder], hi⟩]
        exact ⟨_, _, h.step_enter hholder hi⟩
      · rw [LockedAppend.step, if_neg fun hg => hi hg.2]
        exact ⟨_, _, h⟩
    | write => simpa only [LockedAppend.step, hholder] using ⟨_, _, h⟩
    | flush n => simpa only [LockedAppend.step, hholder] using ⟨_, _, h⟩
    | close => simpa only [LockedAppend.step, hholder] using ⟨_, _, h⟩
    | abort n => simpa only [LockedAppend.step, hholder] using ⟨_, _, h⟩
  | some holder =>
    obtain ⟨i, todo, buffer⟩ := holder
    obtain ⟨done, rfl, hdone⟩ : ∃ done, opened = [⟨i, done⟩] ∧ done ++ (buffer ++ todo.flatten) =
      (pieces i).flatten := by
      simpa only [Opens, hholder] using h.current
    cases e with
    | enter j =>
      rw [LockedAppend.step, if_neg fun hg => by simp [hholder] at hg]
      exact ⟨_, _, h⟩
    | write =>
      cases todo with
      | nil => simpa only [LockedAppend.step, hholder] using ⟨_, _, h⟩
      | cons piece todo =>
        simp only [LockedAppend.step, hholder]
        refine ⟨closed, [⟨i, done⟩], h.files, h.done, ⟨done, rfl, ?_⟩, h.named, h.distinct, ?_⟩
        · simpa using hdone
        · simpa [State.entered, State.owner, hholder] using h.once
    | flush n =>
      simp only [LockedAppend.step, hholder]
      refine ⟨closed, [⟨i, done ++ buffer.take n⟩], content_extend h.files, h.done, ⟨_, rfl, ?_⟩,
        named_extend _ h.named (by simp), keys_nodup_set h.distinct _ _, ?_⟩
      · rw [List.append_assoc, ← List.append_assoc (buffer.take n), List.take_append_drop]
        exact hdone
      · simpa [State.entered, State.owner, hholder] using h.once
    | close =>
      cases todo with
      | nil =>
        simp only [LockedAppend.step, hholder]
        have hwhole : done ++ buffer = (pieces i).flatten := by simpa using hdone
        exact ⟨_, _, h.step_leave hholder ⟨rfl, by rw [← hwhole], fun _ => hwhole⟩⟩
      | cons piece todo => simpa only [LockedAppend.step, hholder] using ⟨_, _, h⟩
    | abort n =>
      simp only [LockedAppend.step, hholder]
      have hpart : done ++ buffer.take n <+: (pieces i).flatten := by
        rw [← hdone]
        exact (List.prefix_append_right_inj done).mpr
          ((List.take_prefix n buffer).trans (List.prefix_append _ _))
      exact ⟨_, _, h.step_leave hholder ⟨rfl, hpart, by simp⟩⟩

lemma step_keeps (s : State ι φ α) {e : Step ι} (he : e = .write ∨ ∃ n, e = .flush n) :
    (LockedAppend.step file pieces s e).results = s.results ∧
    (LockedAppend.step file pieces s e).owner = s.owner := by
  rcases he with rfl | ⟨n, rfl⟩
  all_goals
    rw [LockedAppend.step]
    split
    · rename_i hholder
      simp [State.owner, hholder]
    · simp

end Runs

end AgentTrajectory.LockedAppend
