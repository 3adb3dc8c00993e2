import AgentTrajectory.AnthropicCapture

/-! The events of a streamed message, cut into deltas and interleaved in whatever way, and
what the loop of `reconstruct_sse_message` makes of them: each block comes back whole, and
so does the message. -/
namespace AgentTrajectory.AnthropicCapture
open PyText PyDict PyJson PyValue

variable {m : Dict PyStr Json} {j : ℕ}

inductive Piece
  | text (s : PyStr)
  | thinking (s : PyStr)
  | signature (s : PyStr)
  | inputJson (s : PyStr)

/-- An event after `message_start`; `other` is one whose type the loop does not know. -/
inductive Event
  | blockStart (i : ℕ) (block : Dict PyStr Json)
  | blockDelta (i : ℕ) (piece : Piece)
  | blockStop (i : ℕ)
  | messageDelta (delta : Dict PyStr Json) (usage : Option (Dict PyStr Json))
  | other

def Piece.type : Piece → PyStr
  | .text _ => py "text_delta"
  | .thinking _ => py "thinking_delta"
  | .signature _ => py "signature_delta"
  | .inputJson _ => py "input_json_delta"

def Piece.field : Piece → PyStr
  | .text _ => py "text"
  | .thinking _ => py "thinking"
  | .signature _ => py "signature"
  | .inputJson _ => py "partial_json"

def Piece.body : Piece → PyStr
  | .text s => s
  | .thinking s => s
  | .signature s => s
  | .inputJson s => s

def knownTypes : List Json :=
  [.str (py "message_start"), .str (py "content_block_start"), .str (py "content_block_delta"),
    .str (py "content_block_stop"), .str (py "message_delta")]

def Event.WrittenAs (ev : Dict PyStr Json) : Event → Prop
  | .blockStart i block => get? ev (py "type") = some (.str (py "content_block_start")) ∧
      get? ev (py "index") = some (.int i) ∧ get? ev (py "content_block") = some (.obj block)
  | .blockDelta i p => get? ev (py "type") = some (.str (py "content_block_delta")) ∧
      get? ev (py "index") = some (.int i) ∧
      ∃ d, get? ev (py "delta") = some (.obj d) ∧ get? d (py "type") = some (.str p.type) ∧
        get? d p.field = some (.str p.body)
  | .blockStop i => get? ev (py "type") = some (.str (py "content_block_stop")) ∧
      get? ev (py "index") = some (.int i)
  | .messageDelta delta usage => get? ev (py "type") = some (.str (py "message_delta")) ∧
      get? ev (py "delta") = some (.obj delta) ∧ get? ev (py "usage") = usage.map .obj
  | .other => getNone ev (py "type") ∉ knownTypes

/-- An original content block: a dictionary with the fields its deltas will carry. -/
inductive Block
  | text (fields : Dict PyStr Json) (s : PyStr)
      (hs : get? fields (py "text") = some (.str s))
  | thinking (fields : Dict PyStr Json) (s g : PyStr)
      (hs : get? fields (py "thinking") = some (.str s))
      (hg : get? fields (py "signature") = some (.str g))
  | toolUse (fields : Dict PyStr Json) (input : Json)
      (hi : get? fields (py "input") = some input)

def Block.fields : Block → Dict PyStr Json
  | .text f _ _ => f
  | .thinking f _ _ _ _ => f
  | .toolUse f _ _ => f

/-- The block as its start event shows it. -/
def Block.opened : Block → Dict PyStr Json
  | .text f _ _ => set f (py "text") (.str [])
  | .thinking f _ _ _ _ => set (set f (py "thinking") (.str [])) (py "signature") (.str [])
  | .toolUse f _ _ => set f (py "input") (.obj [])

def Piece.thinkingPart : Piece → PyStr
  | .thinking s => s
  | _ => []

def Piece.signaturePart : Piece → PyStr
  | .signature s => s
  | _ => []

def Block.CutInto (ps : List Piece) : Block → Prop
  | .text _ s _ => ∃ parts : List PyStr, ps = parts.map .text ∧ parts.flatten = s
  | .thinking _ s g _ _ =>
      (∀ p ∈ ps, (∃ x, p = .thinking x) ∨ ∃ x, p = .signature x) ∧
      ps.flatMap Piece.thinkingPart = s ∧ ps.flatMap Piece.signaturePart = g
  | .toolUse _ input _ => ∃ parts : List PyStr, ps = parts.map .inputJson ∧
      (parts.flatten = [] ∧ input = .obj [] ∨ parts.flatten ≠ [] ∧ loads parts.flatten = some input)

def Event.touches (i : ℕ) : Event → Bool
  | .blockStart j _ => i == j
  | .blockDelta j _ => i == j
  | .blockStop j => i == j
  | _ => false

/-- Start, deltas and stop of each block, interleaved in any way with one another and with
the message deltas. -/
structure Streams (blocks : List Block) (events : List Event) : Prop where
  block : ∀ (i : ℕ) (b : Block), blocks[i]? = some b → ∃ ps, b.CutInto ps ∧
    events.filter (Event.touches i) =
      .blockStart i b.opened :: ps.map (.blockDelta i) ++ [.blockStop i]
  only : ∀ i, blocks.length ≤ i → events.filter (Event.touches i) = []
  usage : ∀ d u, .messageDelta d u ∈ events → get? d (py "usage") = none

def mergeDelta (m : Dict PyStr Json) : Event → Dict PyStr Json
  | .messageDelta delta usage =>
      let m' := update m delta
      match usage with
      | some (kv :: u) =>
          let old := match get? m' (py "usage") with
            | some (.obj d) => d
            | _ => []
          set m' (py "usage") (.obj (update old (kv :: u)))
      | _ => m'
  | _ => m

structure Slot where
  block : Json
  text : PyStr

def Stream.slot (st : Stream) (i : ℕ) : Slot :=
  ⟨st.blocks.getD i .null, (get? st.partialJson (.int i)).getD []⟩

def appendTo (block : Json) (field piece : PyStr) : Option Json :=
  match block with
  | .obj d =>
      match (get? d field).getD (.str []) with
      | .str s => some (.obj (set d field (.str (s ++ piece))))
      | _ => none
  | _ => none

def closeWith (block : Json) (text : PyStr) : Option Json :=
  match block with
  | .obj d => some (.obj (withInput d text))
  | _ => none

/-- What an event of its index does to a slot; `none` where the loop would raise. -/
def Slot.step (s : Slot) : Event → Option Slot
  | .blockStart _ block => some ⟨.obj block, []⟩
  | .blockDelta _ (.inputJson t) => some { s with text := s.text ++ t }
  | .blockDelta _ p => (appendTo s.block p.field p.body).map fun b => { s with block := b }
  | .blockStop _ =>
      if s.text.isEmpty then some s else (closeWith s.block s.text).map fun b => { s with block := b }
  | _ => some s

section Steps
variable {fl : Floats} {st : Stream}

lemma slot_block_obj {i : ℕ} {d : Dict PyStr Json} (h : (st.slot i).block = .obj d) :
    st.blocks[i]? = some (.obj d) := by
  rw [Stream.slot, List.getD_eq_getElem?_getD] at h
  cases hg : st.blocks[i]? with
  | none => simp [hg] at h
  | some v => simpa [hg] using h

lemma itemAt_obj {i : ℕ} {d : Dict PyStr Json} (h : st.blocks[i]? = some (.obj d)) :
    itemAt st.blocks (.int i) = .ok (i, .obj d) := by
  obtain ⟨hi, hd⟩ := List.getElem?_eq_some_iff.mp h
  refine bind_eq_ok.mpr ⟨i, ?_, ?_⟩
  · exact bind_eq_ok.mpr ⟨i, rfl, position_of_lt hi⟩
  · rw [List.getD_eq_getElem?_getD, h]
    rfl

lemma slot_set {i j : ℕ} {v : Json} (hi : i < st.blocks.length) :
    Stream.slot { st with blocks := st.blocks.set i v } j =
      if j = i then { st.slot i with block := v } else st.slot j := by
  split_ifs with hij
  · subst hij
    simp [Stream.slot, List.getElem?_set_self hi]
  · simp [Stream.slot, List.getElem?_set_ne (Ne.symm hij)]

def Slot.stepAt (i : ℕ) (s : Slot) (e : Event) : Option Slot := if e.touches i then s.step e else some s

def lengthAfter (n : ℕ) : Event → ℕ
  | .blockStart i _ => max n (i + 1)
  | _ => n

def UsageDict (m : Dict PyStr Json) : Prop := ∀ v ∈ get? m (py "usage"), ∃ d, v = .obj d

structure TakesTo (st : Stream) (m : Dict PyStr Json) (e : Event) (st' : Stream) : Prop where
  msg : st'.msg = some (mergeDelta m e)
  slots : ∀ i, Slot.stepAt i (st.slot i) e = some (st'.slot i)
  length : st'.blocks.length = lengthAfter st.blocks.length e

lemma int_ne_int {i j : ℕ} (h : i ≠ j) : Json.int j ≠ .int i := by
  simpa using Ne.symm h

lemma slot_inputDelta (t : PyStr) (i : ℕ) :
    Stream.slot { st with partialJson := set st.partialJson (.int j) t } i =
      if i = j then { st.slot j with text := t } else st.slot i := by
  split_ifs with hij
  · subst hij
    simp [Stream.slot]
  · simp [Stream.slot, get?_set_ne _ _ (int_ne_int hij)]

lemma length_padTo (blocks : List Json) (j : ℕ) :
    (padTo blocks j).length = max blocks.length (j + 1) := by
  simp only [padTo, List.length_append, List.length_replicate]
  omega

lemma getD_padTo (blocks : List Json) (j i : ℕ) :
    (padTo blocks j).getD i .null = blocks.getD i .null := by
  rw [List.getD_eq_getElem?_getD, List.getD_eq_getElem?_getD, padTo]
  by_cases hi : i < blocks.length
  · rw [List.getElem?_append_left hi]
  · rw [List.getElem?_append_right (by omega), List.getElem?_eq_none (l := blocks) (by omega)]
    cases h : (List.replicate (((j : ℤ) + 1).toNat - blocks.length) Json.null)[i - blocks.length]? with
    | none => rfl
    | some v => exact List.eq_of_mem_replicate (List.mem_of_getElem? h)

lemma takes_blockStart {m ev : Dict PyStr Json} {block : Dict PyStr Json}
    (hm : st.msg = some m) (hi : get? ev (py "index") = some (.int j))
    (hb : get? ev (py "content_block") = some (.obj block)) :
    ∃ st', contentBlockStart st ev = .ok st' ∧ TakesTo st m (.blockStart j block) st' := by
  have hlen : j < (padTo st.blocks j).length := by rw [length_padTo]; omega
  refine ⟨_, bind_eq_ok.mpr ⟨j, bind_eq_ok.mpr ⟨.int j, getItem_of_get? hi, rfl⟩,
    bind_eq_ok.mpr ⟨.obj block, getItem_of_get? hb,
      bind_eq_ok.mpr ⟨j, position_of_lt hlen, rfl⟩⟩⟩, hm, fun i => ?_, ?_⟩
  · rw [Slot.stepAt, Event.touches]
    by_cases hij : i = j
    · subst hij
      simp [Slot.step, Stream.slot, hlen]
    · simp only [beq_iff_eq, hij, if_false, Stream.slot, Option.some.injEq, Slot.mk.injEq,
        get?_set_ne _ _ (int_ne_int hij), and_true]
      rw [← getD_padTo st.blocks j i, List.getD_eq_getElem?_getD, List.getD_eq_getElem?_getD,
        List.getElem?_set_ne (Ne.symm hij)]
  · simp [lengthAfter, length_padTo]

lemma appendTo_some {block b' : Json} {field piece : PyStr} (h : appendTo block field piece = some b') :
    ∃ d s, block = .obj d ∧ (get? d field).getD (.str []) = .str s ∧
      b' = .obj (set d field (.str (s ++ piece))) := by
  unfold appendTo at h
  split at h
  · rename_i d
    split at h
    · rename_i s hs
      exact ⟨d, s, rfl, hs, (Option.some.inj h).symm⟩
    · simp at h
  · simp at h

lemma appendField_ok (fl : Floats) {d : Dict PyStr Json} {field piece : PyStr} {b' : Json}
    (hd : get? d field = some (.str piece)) (h : appendTo (st.slot j).block field piece = some b') :
    j < st.blocks.length ∧
      appendField fl st (.int j) d field = .ok { st with blocks := st.blocks.set j b' } := by
  obtain ⟨b, s, hb, hs, rfl⟩ := appendTo_some h
  have hitem := slot_block_obj hb
  refine ⟨(List.getElem?_eq_some_iff.mp hitem).1, bind_eq_ok.mpr ⟨_, itemAt_obj hitem, ?_⟩⟩
  refine bind_eq_ok.mpr ⟨b, rfl, bind_eq_ok.mpr ⟨_, getItem_of_get? hd, ?_⟩⟩
  rw [hs]
  rfl

lemma takes_set {b' : Json} {e : Event} (hm : st.msg = some m)
    (hj : j < st.blocks.length) (htouch : ∀ i, e.touches i = (i == j)) (hmerge : mergeDelta m e = m)
    (hlen : lengthAfter st.blocks.length e = st.blocks.length)
    (hstep : (st.slot j).step e = some { st.slot j with block := b' }) :
    TakesTo st m e { st with blocks := st.blocks.set j b' } where
  msg := by rw [hmerge, ← hm]
  slots i := by
    rw [Slot.stepAt, htouch, slot_set hj]
    by_cases hij : i = j
    · subst hij
      simp [hstep]
    · simp [hij]
  length := by simp [hlen]

lemma contentBlockDelta_eq {ev d : Dict PyStr Json} {p : Piece}
    (hi : get? ev (py "index") = some (.int j)) (hd : get? ev (py "delta") = some (.obj d))
    (ht : get? d (py "type") = some (.str p.type)) :
    contentBlockDelta fl st ev =
      match p with
      | .inputJson _ => appendPartial fl st (.int j) d
      | p => appendField fl st (.int j) d p.field := by
  have hstart : contentBlockDelta fl st ev =
      if Json.str p.type = .str (py "text_delta") then appendField fl st (.int j) d (py "text")
      else if Json.str p.type = .str (py "thinking_delta") then
        appendField fl st (.int j) d (py "thinking")
      else if Json.str p.type = .str (py "input_json_delta") then appendPartial fl st (.int j) d
      else if Json.str p.type = .str (py "signature_delta") then
        appendField fl st (.int j) d (py "signature")
      else .ok st := by
    simp only [contentBlockDelta, getItem_of_get? hi, getItem_of_get? hd, asDict, getNone, ht,
      bind, Except.bind, Option.getD_some]
  rw [hstart]
  cases p with
  | text s => rfl
  | thinking s => rfl
  | signature s => rfl
  | inputJson s => rfl

lemma takes_blockDelta (fl : Floats) {m ev d : Dict PyStr Json} {p : Piece} (hm : st.msg = some m)
    (hi : get? ev (py "index") = some (.int j)) (hd : get? ev (py "delta") = some (.obj d))
    (ht : get? d (py "type") = some (.str p.type)) (hp : get? d p.field = some (.str p.body))
    (hstep : ((st.slot j).step (.blockDelta j p)).isSome = true) :
    ∃ st', contentBlockDelta fl st ev = .ok st' ∧ TakesTo st m (.blockDelta j p) st' := by
  rw [contentBlockDelta_eq hi hd ht]
  have hfield : (∀ s, p ≠ .inputJson s) → ∃ st', appendField fl st (.int j) d p.field = .ok st' ∧
      TakesTo st m (.blockDelta j p) st' := by
    intro hne
    have hslot : (st.slot j).step (.blockDelta j p) =
        (appendTo (st.slot j).block p.field p.body).map fun b => { st.slot j with block := b } := by
      cases p with
      | inputJson s => exact absurd rfl (hne s)
      | _ => rfl
    rw [hslot, Option.isSome_map] at hstep
    obtain ⟨b', hb⟩ := Option.isSome_iff_exists.mp hstep
    obtain ⟨hlt, hok⟩ := appendField_ok fl hp hb
    exact ⟨_, hok, takes_set hm hlt (fun i => rfl) rfl rfl (by rw [hslot, hb]; rfl)⟩
  cases p with
  | inputJson t =>
    refine ⟨{ st with partialJson := set st.partialJson (.int j) ((st.slot j).text ++ t) }, ?_, ?_⟩
    · refine bind_eq_ok.mpr ⟨.int j, rfl, bind_eq_ok.mpr ⟨_, getItem_of_get? hp, rfl⟩⟩
    · refine ⟨hm, fun i => ?_, rfl⟩
      rw [slot_inputDelta, Slot.stepAt, Event.touches]
      by_cases hij : i = j
      · subst hij
        simp [Slot.step]
      · simp [hij]
  | text s => exact hfield (by simp)
  | thinking s => exact hfield (by simp)
  | signature s => exact hfield (by simp)

lemma takes_blockStop (fl : Floats) {m ev : Dict PyStr Json} (hm : st.msg = some m)
    (hi : get? ev (py "index") = some (.int j))
    (hstep : ((st.slot j).step (.blockStop j)).isSome = true) :
    ∃ st', contentBlockStop fl st ev = .ok st' ∧ TakesTo st m (.blockStop j) st' := by
  have hrun : contentBlockStop fl st ev =
      if (st.slot j).text.isEmpty then .ok st else storeInput st (.int j) (st.slot j).text := by
    simp only [contentBlockStop, getItem_of_get? hi, hashKey, bind, Except.bind]
    rfl
  rw [hrun]
  by_cases hempty : (st.slot j).text.isEmpty = true
  · rw [if_pos hempty]
    refine ⟨st, rfl, hm, fun i => ?_, rfl⟩
    rw [Slot.stepAt, Event.touches]
    by_cases hij : i = j
    · subst hij
      simp [Slot.step, hempty]
    · simp [hij]
  · rw [if_neg hempty]
    have hslot : (st.slot j).step (.blockStop j) =
        (closeWith (st.slot j).block (st.slot j).text).map fun b => { st.slot j with block := b } := by
      rw [Slot.step, if_neg hempty]
    rw [hslot, Option.isSome_map] at hstep
    obtain ⟨b', hb⟩ := Option.isSome_iff_exists.mp hstep
    unfold closeWith at hb
    split at hb
    · rename_i block hblock
      obtain rfl := Option.some.inj hb
      have hitem := slot_block_obj hblock
      refine ⟨_, bind_eq_ok.mpr ⟨_, itemAt_obj hitem, rfl⟩, ?_⟩
      refine takes_set hm (List.getElem?_eq_some_iff.mp hitem).1 (fun i => rfl) rfl rfl ?_
      rw [hslot, hblock]
      rfl
    · simp at hb

lemma usageDict_update {m d : Dict PyStr Json} (hm : UsageDict m) (hd : get? d (py "usage") = none) :
    UsageDict (update m d) := by
  rw [UsageDict, get?_update_of_not_mem (get?_eq_none.mp hd)]
  exact hm

lemma usageDict_mergeDelta {e : Event} (hm : UsageDict m)
    (he : ∀ d u, e = .messageDelta d u → get? d (py "usage") = none) : UsageDict (mergeDelta m e) := by
  cases e with
  | messageDelta d u =>
    have hup := usageDict_update hm (he d u rfl)
    match u with
    | none => exact hup
    | some [] => exact hup
    | some (kv :: u) =>
      rw [mergeDelta, UsageDict, get?_set_self]
      rintro v ⟨⟩
      exact ⟨_, rfl⟩
  | _ => exact hm

lemma mergeUsage_ok (hm : UsageDict m) (u : Dict PyStr Json) :
    mergeUsage m (.obj u) = .ok (set m (py "usage") (.obj (update
      (match get? m (py "usage") with
        | some (.obj d) => d
        | _ => []) u))) := by
  cases hg : get? m (py "usage") with
  | none => simp [mergeUsage, hg, asDict, updateWith, bind, Except.bind]
  | some v =>
    obtain ⟨d, rfl⟩ := hm v hg
    simp [mergeUsage, hg, asDict, updateWith, bind, Except.bind]

lemma takes_messageDelta {m ev delta : Dict PyStr Json} {usage : Option (Dict PyStr Json)}
    (hm : st.msg = some m) (hu : UsageDict m) (hno : get? delta (py "usage") = none)
    (hd : get? ev (py "delta") = some (.obj delta)) (hus : get? ev (py "usage") = usage.map .obj) :
    ∃ st', messageDelta st ev = .ok st' ∧ TakesTo st m (.messageDelta delta usage) st' := by
  refine ⟨{ st with msg := some (mergeDelta m (.messageDelta delta usage)) }, ?_, rfl, fun i => rfl, rfl⟩
  have hdelta : updateWith m (orEmpty (.obj delta) (.obj [])) = .ok (update m delta) := by
    cases delta <;> rfl
  simp only [messageDelta, hm]
  refine bind_eq_ok.mpr ⟨update m delta, by rw [getNone, hd]; exact hdelta, ?_⟩
  cases usage with
  | none => simp [getNone, hus, Json.truthy, mergeDelta, bind, Except.bind]
  | some u =>
    cases u with
    | nil => simp [getNone, hus, Json.truthy, mergeDelta, bind, Except.bind]
    | cons kv u =>
      have hmerge := mergeUsage_ok (usageDict_update hu hno) (kv :: u)
      simp only [getNone, hus, Option.map_some, Option.getD_some, Json.truthy, List.isEmpty_cons,
        Bool.not_false, if_true, hmerge, bind, Except.bind]
      rfl

theorem onEvent_takes (fl : Floats) {m ev : Dict PyStr Json} {e : Event} (hw : e.WrittenAs ev)
    (hm : st.msg = some m) (hu : UsageDict m)
    (hno : ∀ d u, e = .messageDelta d u → get? d (py "usage") = none)
    (hstep : ∀ i, (Slot.stepAt i (st.slot i) e).isSome = true) :
    ∃ st', onEvent fl st ev = .ok st' ∧ TakesTo st m e st' := by
  cases e with
  | blockStart j block =>
    obtain ⟨ht, hi, hb⟩ := hw
    obtain ⟨st', hok, htake⟩ := takes_blockStart hm hi hb
    exact ⟨st', by rw [onEvent, getNone, ht]; exact hok, htake⟩
  | blockDelta j p =>
    obtain ⟨ht, hi, d, hd, hdt, hp⟩ := hw
    have hj := hstep j
    rw [Slot.stepAt, Event.touches, if_pos (by simp)] at hj
    obtain ⟨st', hok, htake⟩ := takes_blockDelta fl hm hi hd hdt hp hj
    exact ⟨st', by rw [onEvent, getNone, ht]; exact hok, htake⟩
  | blockStop j =>
    obtain ⟨ht, hi⟩ := hw
    have hj := hstep j
    rw [Slot.stepAt, Event.touches, if_pos (by simp)] at hj
    obtain ⟨st', hok, htake⟩ := takes_blockStop fl hm hi hj
    exact ⟨st', by rw [onEvent, getNone, ht]; exact hok, htake⟩
  | messageDelta d u =>
    obtain ⟨ht, hd, hus⟩ := hw
    obtain ⟨st', hok, htake⟩ := takes_messageDelta hm hu (hno d u rfl) hd hus
    exact ⟨st', by rw [onEvent, getNone, ht]; exact hok, htake⟩
  | other =>
    refine ⟨st, ?_, hm, fun i => rfl, rfl⟩
    simp only [Event.WrittenAs, knownTypes, List.mem_cons, List.not_mem_nil, or_false, not_or] at hw
    simp [onEvent, hw]

theorem events_take (fl : Floats) {evs : List (Dict PyStr Json)} {events : List Event}
    (hw : List.Forall₂ (fun ev e => e.WrittenAs ev) evs events)
    (hm : st.msg = some m) (hu : UsageDict m)
    (hno : ∀ d u, .messageDelta d u ∈ events → get? d (py "usage") = none)
    (hslots : ∀ i, (events.foldlM (Slot.stepAt i) (st.slot i)).isSome = true) :
    ∃ st', evs.foldlM (onEvent fl) st = .ok st' ∧ st'.msg = some (events.foldl mergeDelta m) ∧
      (∀ i, events.foldlM (Slot.stepAt i) (st.slot i) = some (st'.slot i)) ∧
      st'.blocks.length = events.foldl lengthAfter st.blocks.length := by
  induction hw generalizing st m with
  | nil => exact ⟨st, rfl, hm, fun i => rfl, rfl⟩
  | @cons ev e evs events hwe hrest ih =>
    have hone : ∀ i, (Slot.stepAt i (st.slot i) e).isSome = true := fun i => by
      have := hslots i
      rw [List.foldlM_cons] at this
      cases hs : Slot.stepAt i (st.slot i) e with
      | none => simp [hs] at this
      | some s => rfl
    have hnoe : ∀ d u, e = .messageDelta d u → get? d (py "usage") = none := fun d u h =>
      hno d u (by simp [h])
    obtain ⟨st₁, hok, htake⟩ := onEvent_takes fl hwe hm hu hnoe hone
    have hslot : ∀ i, (e :: events).foldlM (Slot.stepAt i) (st.slot i) =
        events.foldlM (Slot.stepAt i) (st₁.slot i) := fun i => by
      rw [List.foldlM_cons, htake.slots i]
      rfl
    obtain ⟨st', hrun, hmsg, hfinal, hlen⟩ := ih htake.msg (usageDict_mergeDelta hu hnoe)
      (fun d u hmem => hno d u (List.mem_cons_of_mem _ hmem)) fun i => by
        rw [← hslot i]
        exact hslots i
    refine ⟨st', ?_, hmsg, fun i => by rw [hslot i, hfinal i], ?_⟩
    · rw [List.foldlM_cons]
      exact bind_eq_ok.mpr ⟨st₁, hok, hrun⟩
    · rw [hlen, htake.length]
      rfl

end Steps

lemma foldlM_stepAt (i : ℕ) (events : List Event) (s : Slot) :
    events.foldlM (Slot.stepAt i) s = (events.filter (Event.touches i)).foldlM Slot.step s := by
  induction events generalizing s with
  | nil => rfl
  | cons e events ih =>
    rw [List.foldlM_cons, Slot.stepAt]
    by_cases ht : e.touches i = true
    · rw [if_pos ht, List.filter_cons_of_pos ht, List.foldlM_cons]
      exact bind_congr fun x => ih x
    · rw [if_neg ht, List.filter_cons_of_neg ht, ← ih]
      rfl

lemma fold_text (i : ℕ) (f : Dict PyStr Json) (parts : List PyStr) (s t : PyStr) :
    (parts.map fun x => Event.blockDelta i (.text x)).foldlM Slot.step
        ⟨.obj (set f (py "text") (.str s)), t⟩ =
      some ⟨.obj (set f (py "text") (.str (s ++ parts.flatten))), t⟩ := by
  induction parts generalizing s with
  | nil => simp
  | cons x parts ih =>
    rw [List.map_cons, List.foldlM_cons]
    simp only [Slot.step, Piece.field, Piece.body, appendTo, get?_set_self, Option.getD_some,
      set_set, Option.map_some]
    rw [List.flatten_cons, ← List.append_assoc, ← ih]
    rfl

lemma fold_inputJson (i : ℕ) (b : Json) (parts : List PyStr) (t : PyStr) :
    (parts.map fun x => Event.blockDelta i (.inputJson x)).foldlM Slot.step ⟨b, t⟩ =
      some ⟨b, t ++ parts.flatten⟩ := by
  induction parts generalizing t with
  | nil => simp
  | cons x parts ih =>
    rw [List.map_cons, List.foldlM_cons, List.flatten_cons, ← List.append_assoc, ← ih]
    rfl

lemma fold_thinking (i : ℕ) {f : Dict PyStr Json} (hf : py "thinking" ∈ keys f) {ps : List Piece}
    (hps : ∀ p ∈ ps, (∃ x, p = .thinking x) ∨ ∃ x, p = .signature x) (x y t : PyStr) :
    (ps.map (Event.blockDelta i)).foldlM Slot.step
        ⟨.obj (set (set f (py "thinking") (.str x)) (py "signature") (.str y)), t⟩ =
      some ⟨.obj (set (set f (py "thinking") (.str (x ++ ps.flatMap Piece.thinkingPart)))
        (py "signature") (.str (y ++ ps.flatMap Piece.signaturePart))), t⟩ := by
  have hne : py "thinking" ≠ py "signature" := by simp
  induction ps generalizing x y with
  | nil => simp
  | cons p ps ih =>
    rw [List.map_cons, List.foldlM_cons]
    rcases hps p (by simp) with ⟨z, rfl⟩ | ⟨z, rfl⟩
    · have hstep : (⟨.obj (set (set f (py "thinking") (.str x)) (py "signature") (.str y)), t⟩ : Slot).step
          (.blockDelta i (.thinking z)) = some ⟨.obj (set (set f (py "thinking") (.str (x ++ z)))
            (py "signature") (.str y)), t⟩ := by
        simp only [Slot.step, Piece.field, Piece.body, appendTo, get?_set_ne _ _ hne.symm,
          get?_set_self, Option.getD_some, Option.map_some]
        rw [set_comm hne hf, set_set, set_comm hne hf]
      rw [hstep]
      have := ih (fun q hq => hps q (by simp [hq])) (x ++ z) y
      simpa [Piece.thinkingPart, Piece.signaturePart] using this
    · have hstep : (⟨.obj (set (set f (py "thinking") (.str x)) (py "signature") (.str y)), t⟩ : Slot).step
          (.blockDelta i (.signature z)) = some ⟨.obj (set (set f (py "thinking") (.str x))
            (py "signature") (.str (y ++ z))), t⟩ := by
        simp only [Slot.step, Piece.field, Piece.body, appendTo, get?_set_self, Option.getD_some,
          Option.map_some, set_set]
      rw [hstep]
      have := ih (fun q hq => hps q (by simp [hq])) x (y ++ z)
      simpa [Piece.thinkingPart, Piece.signaturePart] using this

theorem block_returns {b : Block} {ps : List Piece} (h : b.CutInto ps) (i : ℕ) (s : Slot) :
    ∃ t, (Event.blockStart i b.opened :: ps.map (Event.blockDelta i) ++ [Event.blockStop i]).foldlM
      Slot.step s = some ⟨.obj b.fields, t⟩ := by
  have hstart : (Event.blockStart i b.opened :: ps.map (Event.blockDelta i) ++
      [Event.blockStop i]).foldlM Slot.step s =
        (ps.map (Event.blockDelta i)).foldlM Slot.step ⟨.obj b.opened, []⟩ >>=
          fun s => s.step (.blockStop i) := by
    rw [List.cons_append, List.foldlM_cons, Slot.step]
    simp
  rw [hstart]
  cases b with
  | text f x hx =>
    obtain ⟨parts, rfl, rfl⟩ := h
    refine ⟨[], ?_⟩
    have hfold := fold_text i f parts [] []
    rw [List.nil_append, set_of_get? hx] at hfold
    simp only [List.map_map, Block.opened, Function.comp_def, hfold]
    rfl
  | thinking f x g hx hg =>
    obtain ⟨hps, rfl, rfl⟩ := h
    refine ⟨[], ?_⟩
    have hfold := fold_thinking i (mem_keys_of_get? hx) hps [] [] []
    rw [List.nil_append, List.nil_append, set_of_get? hx, set_of_get? hg] at hfold
    simp only [Block.opened, hfold]
    rfl
  | toolUse f input hi =>
    obtain ⟨parts, rfl, hcase⟩ := h
    have hfold := fold_inputJson i (.obj (set f (py "input") (.obj []))) parts []
    rw [List.nil_append] at hfold
    simp only [List.map_map, Block.opened, Function.comp_def, hfold]
    rcases hcase with ⟨hnil, rfl⟩ | ⟨hne, hload⟩
    · refine ⟨[], ?_⟩
      rw [hnil, set_of_get? hi]
      rfl
    · refine ⟨parts.flatten, ?_⟩
      simp [Slot.step, closeWith, withInput, hload, hne, set_of_get? hi, Block.fields]

lemma foldl_lengthAfter_le_iff (events : List Event) (n N : ℕ) :
    events.foldl lengthAfter n ≤ N ↔ n ≤ N ∧ ∀ i b, .blockStart i b ∈ events → i + 1 ≤ N := by
  induction events generalizing n with
  | nil => simp
  | cons e events ih =>
    rw [List.foldl_cons, ih]
    cases e with
    | blockStart j c =>
      simp only [lengthAfter, max_le_iff, List.mem_cons, Event.blockStart.injEq]
      constructor
      · rintro ⟨⟨hn, hj⟩, hall⟩
        refine ⟨hn, fun i b hb => ?_⟩
        rcases hb with ⟨rfl, -⟩ | hb
        · exact hj
        · exact hall i b hb
      · rintro ⟨hn, hall⟩
        exact ⟨⟨hn, hall j c (.inl ⟨rfl, rfl⟩)⟩, fun i b hb => hall i b (.inr hb)⟩
    | _ => simp [lengthAfter]

/-- The message that the stream carries. -/
def streamed (m : Dict PyStr Json) (blocks : List Block) (events : List Event) : Dict PyStr Json :=
  set (events.foldl mergeDelta m) (py "content") (.arr (blocks.map fun b => .obj b.fields))

/-- A start message as it is streamed: no content yet, and its usage, if any, is a dictionary. -/
structure Opening (m : Dict PyStr Json) : Prop where
  content : (getNone m (py "content")).truthy = false
  usage : UsageDict m

lemma messageStart_ok {ev m : Dict PyStr Json} (hm : get? ev (py "message") = some (.obj m))
    (ho : Opening m) : messageStart Stream.empty ev = .ok ⟨some m, [], []⟩ := by
  simp [messageStart, getItem_of_get? hm, asDict, orEmpty, ho.content, listOf, Stream.empty, bind,
    Except.bind]

lemma Streams.length_eq {blocks : List Block} {events : List Event} (hs : Streams blocks events) :
    events.foldl lengthAfter 0 = blocks.length := by
  have hmem : ∀ i b, .blockStart i b ∈ events → i < blocks.length := fun i b hb => by
    by_contra hlt
    have hnone := hs.only i (by omega)
    exact absurd (List.filter_eq_nil_iff.mp hnone _ hb) (by simp [Event.touches])
  refine le_antisymm ((foldl_lengthAfter_le_iff events 0 _).mpr ⟨by omega, hmem⟩) ?_
  by_contra hlt
  have hle := (foldl_lengthAfter_le_iff events 0 (events.foldl lengthAfter 0)).mp le_rfl
  obtain ⟨b, hb⟩ : ∃ b, blocks[blocks.length - 1]? = some b :=
    ⟨_, List.getElem?_eq_getElem (by omega)⟩
  obtain ⟨ps, -, hfilter⟩ := hs.block _ b hb
  have hstart : .blockStart (blocks.length - 1) b.opened ∈ events :=
    (List.mem_filter.mp (by rw [hfilter]; simp)).1
  have := hle.2 _ _ hstart
  omega

theorem events_return (fl : Floats) {blocks : List Block} {events : List Event}
    (hs : Streams blocks events) {evs : List (Dict PyStr Json)}
    (hw : List.Forall₂ (fun ev e => e.WrittenAs ev) evs events) (ho : Opening m) :
    ∃ st, evs.foldlM (onEvent fl) ⟨some m, [], []⟩ = .ok st ∧
      st.message = some (streamed m blocks events) := by
  have hslots : ∀ i, ∃ t, events.foldlM (Slot.stepAt i) (Stream.slot ⟨some m, [], []⟩ i) =
      some ⟨(blocks[i]?.map fun b => Json.obj b.fields).getD .null, t⟩ := by
    intro i
    rw [foldlM_stepAt]
    cases hb : blocks[i]? with
    | some b =>
      obtain ⟨ps, hcut, hfilter⟩ := hs.block i b hb
      rw [hfilter]
      exact block_returns hcut i _
    | none =>
      rw [hs.only i (List.getElem?_eq_none_iff.mp hb)]
      exact ⟨[], rfl⟩
  obtain ⟨st, hrun, hmsg, hfinal, hlen⟩ := events_take fl hw rfl ho.usage hs.usage
    fun i => by
      obtain ⟨t, ht⟩ := hslots i
      rw [ht]
      rfl
  refine ⟨st, hrun, ?_⟩
  have hblocks : st.blocks = blocks.map fun b => .obj b.fields := by
    refine List.ext_getElem (hlen.trans (hs.length_eq.trans (by simp))) fun i h₁ h₂ => ?_
    obtain ⟨t, ht⟩ := hslots i
    have hslot := congrArg Slot.block (Option.some.inj ((hfinal i).symm.trans ht))
    have hi : i < blocks.length := by simpa using h₂
    simpa [Stream.slot, h₁, hi] using hslot
  rw [Stream.message, hmsg, hblocks]
  rfl

end AgentTrajectory.AnthropicCapture
