import AgentTrajectory.CaptureRecord
import AgentTrajectory.CodexCapture
import AgentTrajectory.CodexWireAdapter
import AgentTrajectory.SseLines

/-! The items of a Responses stream between the proxy and the adapter. The proxy files them
under `output_items` and, where a terminal event left a response object, under its output as
well; the adapter reads the latter only. A text that `splitlines` cuts is lost; its later parts
can raise but never pass for an event with a type. -/
namespace AgentTrajectory.CodexCapture
open PyText PyDict PyJson PyValue AnthropicCapture SseLines CodexWireAdapter

def isDelta (ev : Dict PyStr Json) : Bool := isTextDelta (typeOf ev) || isReasoningDelta (typeOf ev)

structure WellFormed (ev : Dict PyStr Json) : Prop where
  delta : isDelta ev = true → ∃ s, deltaOf ev = .str s
  output : isTerminal (typeOf ev) = true → ∀ d, get? ev (py "response") = some (.obj d) →
    (getNone d (py "output")).truthy = false

inductive WireLine
  | field (line : PyStr)
  | event (text : PyStr) (ev : Dict PyStr Json)

abbrev Stream := List WireLine

def fieldHeads : List PyStr := [py ":", py "event:", py "id:", py "retry:"]

def isField (line : PyStr) : Bool :=
  line.isEmpty || line == py "data: [DONE]" || fieldHeads.any (startswith line)

namespace WireLine

def text : WireLine → PyStr
  | .field line => line
  | .event t _ => sseLine t

def Proper : WireLine → Prop
  | .field line => isField line = true ∧ Unbroken line
  | .event t ev => LineOf t ev ∧ WellFormed ev

def read : WireLine → List (Dict PyStr Json)
  | .field _ => []
  | .event t ev => if Unbroken t then [ev] else []

end WireLine

def isObject : Json → Bool
  | .obj _ => true
  | _ => false

def raises (line : PyStr) : Bool := ((dataOf line).bind loads).any fun v => !isObject v

def WireLine.forges : WireLine → Bool
  | .field _ => false
  | .event t _ => (lineParts t).tail.any raises

/-- The item of a `response.output_item.done` event. -/
def doneItem (ev : Dict PyStr Json) : Option (Dict PyStr Json) :=
  if isItemDone (typeOf ev) then
    match getNone ev (py "item") with
    | .obj item => some item
    | _ => none
  else none

def wantedItem (ev : Dict PyStr Json) : Option (Dict PyStr Json) :=
  (doneItem ev).filter fun item => !isReasoning item

/-- No line boundary cuts the text of an event with such an item. -/
def WireLine.Whole : WireLine → Prop
  | .field _ => True
  | .event t ev => (wantedItem ev).isSome → Unbroken t

instance : DecidablePred WireLine.Whole
  | .field _ => .isTrue trivial
  | .event _ _ => inferInstanceAs (Decidable (_ → _))

def response (r : Json) (ev : Dict PyStr Json) : Json :=
  if isTerminal (typeOf ev) then (get? ev (py "response")).getD r else r

def lastResponse (evs : List (Dict PyStr Json)) : Json := evs.foldl response .null

namespace Stream
variable (stream : Stream)

def text : PyStr := stream.flatMap fun w => w.text ++ [cp '\n']

def Proper : Prop := ∀ w ∈ stream, w.Proper

def events : List (Dict PyStr Json) := stream.flatMap fun
  | .field _ => []
  | .event _ ev => [ev]

def kept : List (Dict PyStr Json) := stream.flatMap WireLine.read

def wanted : List (Dict PyStr Json) := events stream |>.filterMap wantedItem

/-- The proxy takes the text for a stream, and the last response it reads is an object. -/
def Closed : Prop := isSse (text stream) = true ∧ isObject (lastResponse (kept stream)) = true

instance : Decidable (Closed stream) := inferInstanceAs (Decidable (_ ∧ _))

end Stream

/-- Nothing that is stored of the events is beyond UTF-8. -/
def Encodable (evs : List (Dict PyStr Json)) : Prop :=
  (∀ ev ∈ evs, isDelta ev = true → (deltaOf ev).unicode = true) ∧
    (∀ item ∈ evs.filterMap doneItem, (Json.obj item).unicode = true) ∧
    (fillOutput (lastResponse evs) ((evs.filterMap doneItem).map .obj)).unicode = true

instance (evs : List (Dict PyStr Json)) : Decidable (Encodable evs) :=
  inferInstanceAs (Decidable ((_ : Prop) ∧ (_ : Prop) ∧ _))

/-- The record can be written, and rebuilding the stream raises nothing. -/
def Storable (x : Exchange) (stream : Stream) : Prop :=
  scalars x.path = true ∧ x.payload.unicode = true ∧
    (isSse stream.text = true → stream.any WireLine.forges = false ∧ Encodable stream.kept)

instance (x : Exchange) (stream : Stream) : Decidable (Storable x stream) :=
  inferInstanceAs (Decidable (_ ∧ _ ∧ _))

section Loop
variable {st : Rebuild} {ev : Dict PyStr Json} {t : PyStr} {evs : List (Dict PyStr Json)}

lemma delta_exclusive (h : isDelta ev = true) :
    isItemDone (typeOf ev) = false ∧ isTerminal (typeOf ev) = false := by
  simp only [isDelta, isTextDelta, isReasoningDelta, Bool.or_eq_true, beq_iff_eq] at h
  rcases h with h | h | h <;> rw [h] <;> decide

lemma done_exclusive {t : Json} (h : isItemDone t = true) : isTerminal t = false := by
  obtain rfl := beq_iff_eq.mp h
  decide

lemma onEvent_spec (st : Rebuild) (ev : Dict PyStr Json) :
    ∃ text reasoning, onEvent st ev = ⟨response st.finalResponse ev, st.textParts ++ text,
        st.reasoningParts ++ reasoning, st.outputItems ++ ((doneItem ev).map Json.obj).toList,
        st.eventsSeen + 1⟩ ∧
      ∀ v, v ∈ text ++ reasoning ↔ isDelta ev = true ∧ v = deltaOf ev := by
  rw [onEvent, response, doneItem]
  by_cases htext : isTextDelta (typeOf ev) = true
  · have hdelta : isDelta ev = true := by rw [isDelta, htext, Bool.true_or]
    obtain ⟨hdone, hterm⟩ := delta_exclusive hdelta
    exact ⟨[deltaOf ev], [], by simp [htext, hdone, hterm], by simp [hdelta]⟩
  by_cases hreas : isReasoningDelta (typeOf ev) = true
  · have hdelta : isDelta ev = true := by rw [isDelta, hreas, Bool.or_true]
    obtain ⟨hdone, hterm⟩ := delta_exclusive hdelta
    exact ⟨[], [deltaOf ev], by simp [htext, hreas, hdone, hterm], by simp [hdelta]⟩
  refine ⟨[], [], ?_, by simp [isDelta, htext, hreas]⟩
  by_cases hdone : isItemDone (typeOf ev) = true
  · have hterm := done_exclusive hdone
    cases hitem : getNone ev (py "item") <;> simp [htext, hreas, hdone, hterm, Rebuild.addItem]
  · by_cases hterm : isTerminal (typeOf ev) = true <;> simp [htext, hreas, hdone, hterm]

structure Rebuild.After (st : Rebuild) (evs : List (Dict PyStr Json)) : Prop where
  seen : st.eventsSeen = 0 → evs = []
  final : st.finalResponse = lastResponse evs
  items : st.outputItems = (evs.filterMap doneItem).map .obj
  deltas : ∀ v, v ∈ st.textParts ++ st.reasoningParts ↔ ∃ ev ∈ evs,
    isDelta ev = true ∧ v = deltaOf ev

lemma after_empty : Rebuild.empty.After [] := ⟨fun _ => rfl, rfl, rfl, by simp [Rebuild.empty]⟩

lemma Rebuild.After.event (h : st.After evs) (ev : Dict PyStr Json) :
    (onEvent st ev).After (evs ++ [ev]) := by
  obtain ⟨text, reasoning, heq, hnew⟩ := onEvent_spec st ev
  rw [heq]
  refine ⟨fun hseen => absurd hseen (by simp), ?_, ?_, fun v => ?_⟩
  · simp [lastResponse, h.final]
  · cases hd : doneItem ev <;> simp [h.items, hd]
  · have hold := h.deltas v
    have hadd := hnew v
    simp only [List.mem_append, List.mem_singleton, or_and_right, exists_or,
      exists_eq_left] at hold hadd ⊢
    rw [← hold, ← hadd]
    tauto

lemma Rebuild.After.untyped (h : st.After evs) (hkey : get? ev (py "type") = none) :
    (onEvent st ev).After evs := by
  have htype : typeOf ev = .str [] := by rw [typeOf, hkey, Option.getD_none]
  have hsame : onEvent st ev = { st with eventsSeen := st.eventsSeen + 1 } := by
    rw [onEvent, htype]
    rfl
  rw [hsame]
  exact ⟨fun hseen => absurd hseen (by simp), h.final, h.items, h.deltas⟩

def Ends (bad : Bool) (evs : List (Dict PyStr Json)) (r : Except PyError Rebuild) : Prop :=
  if bad then ∃ e, r = .error e else ∃ st, r = .ok st ∧ st.After evs

lemma ends_ok (h : st.After evs) : Ends false evs (.ok st) := ⟨st, rfl, h⟩

lemma Ends.bind {b c : Bool} {evs' : List (Dict PyStr Json)} {r : Except PyError Rebuild}
    {f : Rebuild → Except PyError Rebuild} (h : Ends b evs r)
    (hf : ∀ st, st.After evs → Ends c evs' (f st)) : Ends (b || c) evs' (r >>= f) := by
  cases b with
  | true =>
    obtain ⟨e, rfl⟩ := h
    exact ⟨e, rfl⟩
  | false =>
    obtain ⟨st, rfl, hst⟩ := h
    exact hf st hst

lemma dataOf_sseLine (p : PyStr) : dataOf (sseLine p) =
    if (strip (py " " ++ p)).isEmpty || strip (py " " ++ p) == py "[DONE]" then none
    else some (strip (py " " ++ p)) := by
  have hsplit : sseLine p = py "data:" ++ (py " " ++ p) := rfl
  have hdrop : (py "data:" ++ rstrip (py " " ++ p)).drop 5 = rstrip (py " " ++ p) := rfl
  simp only [dataOf, hsplit, strip_data, startswith_append, if_true, hdrop, strip_rstrip]

lemma onLine_sseLine (h : LineOf t ev) (st : Rebuild) :
    onLine st (sseLine t) = .ok (onEvent st ev) := by
  obtain ⟨hne, hload⟩ := loads_strip h.1 blank_isSpace
  have hdone : strip (py " " ++ t) ≠ py "[DONE]" := by
    intro heq
    have hnone : loads (py "[DONE]") = none := by decide
    rw [heq, hnone] at hload
    exact absurd hload (by simp)
  rw [onLine, dataOf_sseLine]
  simp [hne, hdone, hload]

lemma onLine_skip {line : PyStr} (h : (dataOf line).bind loads = none) (st : Rebuild) :
    onLine st line = .ok st := by
  rw [onLine, h]

lemma dataOf_start {c : CodePoint} (hc : isSpace c = false) (hd : c ≠ cp 'd') (t : PyStr) :
    dataOf (c :: t) = none := by
  have hstrip : strip (c :: t) = [c] ++ rstrip t := by
    rw [strip, lstrip, List.dropWhile_cons_of_neg (by simp [hc]),
      ← List.singleton_append, rstrip_append]
    simp [rstrip, List.rdropWhile, hc]
  have hno : startswith ([c] ++ rstrip t) (py "data:") = false := by
    have hdata : py "data:" = cp 'd' :: py "ata:" := rfl
    rw [startswith, hdata, List.singleton_append, List.isPrefixOf_cons_cons,
      beq_eq_false_iff_ne.mpr hd.symm,
      Bool.false_and]
  rw [dataOf, hstrip, hno]
  rfl

lemma field_cases {line : PyStr} (h : isField line = true) :
    line = [] ∨ line = py "data: [DONE]" ∨ ∃ p ∈ fieldHeads, ∃ t, line = p ++ t := by
  simp only [isField, Bool.or_eq_true, List.isEmpty_iff, beq_iff_eq, List.any_eq_true] at h
  rcases h with (h | h) | ⟨p, hp, hs⟩
  · exact .inl h
  · exact .inr (.inl h)
  · obtain ⟨t, rfl⟩ := (startswith_iff line p).mp hs
    exact .inr (.inr ⟨p, hp, t, rfl⟩)

lemma dataOf_field {line : PyStr} (h : isField line = true) : dataOf line = none := by
  rcases field_cases h with rfl | rfl | ⟨p, hp, t, rfl⟩
  · decide
  · decide
  · simp only [fieldHeads, List.mem_cons, List.not_mem_nil, or_false] at hp
    rcases hp with rfl | rfl | rfl | rfl <;> exact dataOf_start (by decide) (by decide) _

/-- A line that starts within a string of an event is passed over, raises, or holds an object
without a type: no `p` stands between strings. -/
lemma ends_inner {line : PyStr} {s : Lex} (hline : lex .str line = some s) (h : st.After evs) :
    Ends (raises line) evs (onLine st line) := by
  rw [raises]
  cases hdata : dataOf line with
  | none =>
    rw [onLine, hdata]
    exact ends_ok h
  | some data =>
    have hlex : ∃ rest, lex .str rest = some s ∧ data = strip rest := by
      simp only [dataOf] at hdata
      split_ifs at hdata with hstart hno
      obtain ⟨rest, hrest⟩ := (startswith_iff _ _).mp hstart
      refine ⟨rest, ?_, ?_⟩
      · rw [← lex_strip hline, ← hrest]
        rfl
      · rw [← Option.some.inj hdata, ← hrest]
        rfl
    obtain ⟨rest, hrest, rfl⟩ := hlex
    rw [onLine, hdata, Option.bind_some]
    cases hv : loads (strip rest) with
    | none => exact ends_ok h
    | some v =>
      cases v with
      | obj ev =>
        refine ends_ok (h.untyped ?_)
        refine get?_eq_none.mpr fun hmem => ?_
        exact absurd (keys_plain_of_lex_str hrest hv _ hmem (cp 'p') (by decide)) (by decide)
      | _ => exact ⟨_, rfl⟩

lemma ends_inners {lines : List PyStr} (hlines : ∀ line ∈ lines, ∃ s, lex .str line = some s)
    (h : st.After evs) : Ends (lines.any raises) evs (lines.foldlM onLine st) := by
  induction lines generalizing st with
  | nil => exact ends_ok h
  | cons line lines ih =>
    obtain ⟨s, hs⟩ := hlines line (by simp)
    rw [List.any_cons, List.foldlM_cons]
    exact (ends_inner hs h).bind fun st hst => ih (fun l hl => hlines l (by simp [hl])) hst

lemma ends_wireLine {w : WireLine} (hw : w.Proper) (h : st.After evs) :
    Ends w.forges (evs ++ w.read) ((splitlines (w.text ++ [cp '\n'])).foldlM onLine st) := by
  cases w with
  | field line =>
    rw [WireLine.text, splitlines_line line [] hw.2 (by decide) (by decide), List.foldlM_cons,
      onLine_skip (by rw [dataOf_field hw.1]; rfl), WireLine.read, List.append_nil]
    exact ends_ok h
  | event t ev =>
    by_cases hbreak : Unbroken t
    · have hparts := lineParts_unbroken hbreak
      rw [WireLine.forges, WireLine.read, if_pos hbreak, WireLine.text, ← lineParts,
        hparts, List.foldlM_cons,
        onLine_sseLine hw.1]
      exact ends_ok (h.event ev)
    · obtain ⟨p, rest, hparts, hne, hload, hrest⟩ := lineParts_broken hw.1 hbreak
      have hskip : (dataOf (sseLine p)).bind loads = none := by
        rw [dataOf_sseLine]
        split_ifs
        · rfl
        · exact hload
      rw [WireLine.forges, WireLine.read, if_neg hbreak, List.append_nil,
        WireLine.text, ← lineParts, hparts,
        List.foldlM_cons, onLine_skip hskip]
      exact ends_inners hrest h

lemma ends_stream {stream : Stream} (hs : stream.Proper) (h : st.After evs) :
    Ends (stream.any WireLine.forges) (evs ++ stream.kept)
    ((splitlines stream.text).foldlM onLine st) := by
  rw [Stream.text, splitlines_flatMap]
  induction stream generalizing st evs with
  | nil =>
    rw [Stream.kept, List.flatMap_nil, List.append_nil]
    exact ends_ok h
  | cons w stream ih =>
    rw [List.any_cons, Stream.kept, List.flatMap_cons, List.flatMap_cons, List.foldlM_append,
      ← List.append_assoc]
    exact (ends_wireLine (hs w (by simp)) h).bind fun st hst =>
      ih (fun v hv => hs v (by simp [hv])) hst

end Loop

section Record
variable {st : Rebuild} {stream : Stream} {evs : List (Dict PyStr Json)}

lemma unicode_orNull_str (s : PyStr) : (orEmpty (.str s) .null).unicode = scalars s := by
  cases s <;> rfl

lemma unicode_orNull_arr (xs : List Json) :
    (orEmpty (.arr xs) .null).unicode = Json.unicodeItems xs := by
  cases xs <;> rfl

lemma joined_ok {vs : List Json} (h : ∀ v ∈ vs, ∃ s, v = .str s) :
    ∃ v, joined vs = .ok v ∧ (v.unicode = true ↔ ∀ w ∈ vs, w.unicode = true) := by
  have htexts : ∃ texts : List PyStr, vs.mapM asStr = .ok texts ∧ vs = texts.map .str := by
    induction vs with
    | nil => exact ⟨[], rfl, rfl⟩
    | cons v vs ih =>
      obtain ⟨s, rfl⟩ := h v (by simp)
      obtain ⟨texts, ht, rfl⟩ := ih fun w hw => h w (by simp [hw])
      exact ⟨s :: texts, by rw [List.mapM_cons, ht]; rfl, rfl⟩
  obtain ⟨texts, ht, rfl⟩ := htexts
  refine ⟨_, by rw [joined, ht]; rfl, ?_⟩
  rw [unicode_orNull_str, List.forall_mem_map]
  simp [Json.unicode, scalars, List.all_flatten]

lemma result_spec (h : st.After evs) (hwf : ∀ ev ∈ evs, WellFormed ev) :
    (∃ d, st.result = .ok (some d) ∧ ((Json.obj d).unicode = true ↔ Encodable evs) ∧
      get? d (py "final_response") = some (fillOutput st.finalResponse st.outputItems)) ∨
    (st.result = .ok none ∧ evs = []) := by
  rw [Rebuild.result]
  split_ifs with hnone
  · exact .inr ⟨rfl, h.seen hnone.2⟩
  · have hstr : ∀ v ∈ st.textParts ++ st.reasoningParts, ∃ s, v = .str s := fun v hv => by
      obtain ⟨ev, hev, hdelta, rfl⟩ := (h.deltas v).mp hv
      exact (hwf ev hev).delta hdelta
    obtain ⟨text, htext, hut⟩ := joined_ok fun v hv => hstr v (List.mem_append_left _ hv)
    obtain ⟨reasoning, hreasoning, hur⟩ := joined_ok fun v hv => hstr v (List.mem_append_right _ hv)
    rw [htext, hreasoning]
    refine .inl ⟨_, rfl, ?_, rfl⟩
    have hdeltas : (∀ ev ∈ evs, isDelta ev = true → (deltaOf ev).unicode = true) ↔
        text.unicode = true ∧ reasoning.unicode = true := by
      rw [hut, hur, ← List.forall_mem_append]
      simp only [h.deltas]
      aesop
    have hitems : (orEmpty (.arr st.outputItems) .null).unicode = true ↔
        ∀ item ∈ evs.filterMap doneItem, (Json.obj item).unicode = true := by
      rw [unicode_orNull_arr, Json.unicodeItems_iff, h.items, List.forall_mem_map]
    rw [Encodable, hdeltas, ← hitems, ← h.final, ← h.items]
    simp [Json.unicode, Json.unicodePairs, show scalars (py "final_response") = true by decide,
      show scalars (py "text") = true by decide, show scalars (py "reasoning") = true by decide,
      show scalars (py "output_items") = true by decide,
        show scalars (py "events_seen") = true by decide]
    tauto

def carried : Json → Dict PyStr Json
  | .obj resp =>
      match getNone resp (py "final_response") with
      | .obj fr => fr
      | _ => []
  | _ => []

def carriedItems (v : Json) : Except PyError (List Json) :=
  listOf (orEmpty (getNone (carried v) (py "output")) (.arr []))

lemma finalResponse_recordOf (x : Exchange) (v : Json × Option PyStr) :
    finalResponse (recordOf x v) = carried v.1 := by
  have hget : getNone (recordOf x v) (py "response") = v.1 := rfl
  rw [finalResponse, hget, orEmpty]
  split_ifs with ht
  · rfl
  · obtain ⟨v, raw⟩ := v
    cases v with
    | obj d =>
      cases d with
      | nil => rfl
      | cons kv d => exact absurd rfl ht
    | _ => rfl

def OutputFree (r : Json) : Prop := ∀ d, r = .obj d → (getNone d (py "output")).truthy = false

lemma response_outputFree {r : Json} {ev : Dict PyStr Json}
    (hr : OutputFree r) (hwf : WellFormed ev) :
    OutputFree (response r ev) := by
  rw [response]
  split_ifs with hterm
  · cases hget : get? ev (py "response") with
    | none => exact hr
    | some v =>
      rintro d rfl
      exact hwf.output hterm d hget
  · exact hr

lemma foldl_response_outputFree (h : ∀ ev ∈ evs, WellFormed ev) {r : Json} (hr : OutputFree r) :
    OutputFree (evs.foldl response r) := by
  induction evs generalizing r with
  | nil => exact hr
  | cons ev evs ih =>
    exact ih (fun e he => h e (by simp [he])) (response_outputFree hr (h ev (by simp)))

lemma listOf_fillOutput {d : Dict PyStr Json} (hd : (getNone d (py "output")).truthy = false)
    (items : List Json) : ∃ fr, fillOutput (.obj d) items = .obj fr ∧
      listOf (orEmpty (getNone fr (py "output")) (.arr [])) = .ok items := by
  cases items with
  | nil => exact ⟨d, by simp [fillOutput], by simp [orEmpty, hd, listOf]⟩
  | cons item items =>
    refine ⟨set d (py "output") (.arr (item :: items)), by simp [fillOutput, hd], ?_⟩
    simp [getNone, orEmpty, Json.truthy, listOf]

lemma carriedItems_rebuilt (hfree : OutputFree st.finalResponse) {d : Dict PyStr Json}
    (hd : get? d (py "final_response") = some (fillOutput st.finalResponse st.outputItems)) :
    carriedItems (.obj d) = .ok (if isObject st.finalResponse then st.outputItems else []) := by
  have hget : getNone d (py "final_response") = fillOutput st.finalResponse st.outputItems := by
    rw [getNone, hd, Option.getD_some]
  rw [carriedItems, carried, hget]
  cases hfinal : st.finalResponse with
  | obj d₀ =>
    obtain ⟨fr, hfill, hlist⟩ := listOf_fillOutput (hfree d₀ hfinal) st.outputItems
    rw [hfill]
    exact hlist
  | _ => rfl

lemma parseValue_head {p : PyStr} (hp : p ∈ py "data:" :: fieldHeads) (n : ℕ) (s : PyStr) :
    skipWs (p ++ s) = p ++ s ∧ parseValue n (p ++ s) = none := by
  simp only [fieldHeads, List.mem_cons, List.not_mem_nil, or_false] at hp
  rcases hp with rfl | rfl | rfl | rfl | rfl <;> exact ⟨rfl, by cases n <;> rfl⟩

lemma loads_text (hs : stream.Proper) : loads stream.text = none := by
  have hparse (n : ℕ) : parseValue n (skipWs stream.text) = none := by
    induction stream with
    | nil => cases n <;> rfl
    | cons w stream ih =>
      have hhead {p : PyStr} (hp : p ∈ py "data:" :: fieldHeads) {t : PyStr}
          (ht : w.text = p ++ t) :
            parseValue n (skipWs (Stream.text (w :: stream))) = none := by
        obtain ⟨hskip, hnone⟩ := parseValue_head hp n (t ++ [cp '\n'] ++ Stream.text stream)
        rw [Stream.text, List.flatMap_cons, ht, List.append_assoc, List.append_assoc, ← Stream.text,
          ← List.append_assoc t, hskip, hnone]
      cases w with
      | event t ev => exact hhead (t := py " " ++ t) List.mem_cons_self rfl
      | field line =>
        have hfield : (WireLine.field line).Proper := hs _ List.mem_cons_self
        rcases field_cases hfield.1 with rfl | rfl | ⟨p, hp, t, rfl⟩
        · exact ih fun v hv => hs v (by simp [hv])
        · exact hhead (t := py " [DONE]") List.mem_cons_self rfl
        · exact hhead (t := t) (by simp [hp]) rfl
  rw [loads, hparse]

lemma wellFormed_kept (hs : stream.Proper) : ∀ ev ∈ stream.kept, WellFormed ev := by
  intro ev hev
  obtain ⟨w, hw, hev⟩ := List.mem_flatMap.mp hev
  cases w with
  | field line => simp [WireLine.read] at hev
  | event t ev' =>
    rw [WireLine.read] at hev
    split_ifs at hev
    · obtain rfl := List.mem_singleton.mp hev
      exact (hs _ hw).2
    · simp at hev

lemma responseFields_forged (hs : stream.Proper) (hsse : isSse stream.text = true)
    (hbad : stream.any WireLine.forges = true) : ∃ e, responseFields stream.text = .error e := by
  have hends := ends_stream hs after_empty
  rw [hbad] at hends
  obtain ⟨e, he⟩ := hends
  exact ⟨e, by rw [responseFields, if_pos hsse, reconstructResponsesSse, he]; rfl⟩

lemma responseFields_clean (hs : stream.Proper)
    (hclean : isSse stream.text = true → stream.any WireLine.forges = false) :
    ∃ v, responseFields stream.text = .ok v ∧ v.2 = some stream.text ∧
      (v.1.unicode = true ↔ (isSse stream.text = true → Encodable stream.kept)) ∧
      carriedItems v.1 =
        .ok (if stream.Closed then (stream.kept.filterMap doneItem).map .obj else []) := by
  have hraw : orText stream.text (loads stream.text) = (.null, some stream.text) := by
    rw [loads_text hs]
    rfl
  rw [responseFields]
  by_cases hsse : isSse stream.text = true
  · have hends := ends_stream hs after_empty
    rw [hclean hsse, List.nil_append] at hends
    obtain ⟨st, hrun, hafter⟩ := hends
    have hrebuilt : reconstructResponsesSse stream.text = st.result := by
      rw [reconstructResponsesSse, hrun]
      rfl
    have hclosed : stream.Closed ↔ isObject st.finalResponse = true := by
      rw [Stream.Closed, hafter.final]
      exact and_iff_right hsse
    rw [if_pos hsse, hrebuilt]
    simp only [hclosed]
    rcases result_spec hafter (wellFormed_kept hs) with ⟨d, hd, huni, hfinal⟩ | ⟨hnone, hnil⟩
    · have hfree : OutputFree st.finalResponse := by
        rw [hafter.final]
        exact foldl_response_outputFree (wellFormed_kept hs) (by simp [OutputFree])
      refine ⟨(.obj d, some stream.text), by rw [hd]; rfl, rfl, by simpa [hsse] using huni, ?_⟩
      rw [carriedItems_rebuilt hfree hfinal, hafter.items]
    · refine ⟨(.null, some stream.text), by rw [hnone, ← hraw]; rfl, rfl, ?_, ?_⟩
      · rw [hnil]
        exact iff_of_true rfl fun _ => by decide
      · rw [hafter.final, hnil]
        rfl
  · rw [if_neg hsse]
    refine ⟨(.null, some stream.text), by rw [← hraw]; rfl, rfl,
      iff_of_true rfl fun h => absurd h hsse, ?_⟩
    rw [if_neg fun h => hsse h.1]
    rfl

lemma text_scalars {gunzip : Bytes → Except PyError Bytes} {x : Exchange} {t : PyStr}
    (h : x.text gunzip = .ok t) : scalars t = true := by
  rw [Exchange.text] at h
  split_ifs at h
  · split at h
    · exact Except.ok.inj h ▸ scalars_decodeUtf8 _
    · exact Except.ok.inj h ▸ scalars_decodeUtf8 _
    · simp at h
  · exact Except.ok.inj h ▸ scalars_decodeUtf8 _

lemma recordOf_unicode (x : Exchange) {v : Json × Option PyStr}
    (hraw : ∀ t ∈ v.2, scalars t = true) :
    (Json.obj (recordOf x v)).unicode = true ↔
      scalars x.path = true ∧ x.payload.unicode = true ∧ v.1.unicode = true := by
  have hlast : Json.unicodePairs (v.2.map fun text => (py "response_raw", Json.str text)).toList =
      true := by
    cases h : v.2 with
    | none => rfl
    | some t => simp [Json.unicodePairs, Json.unicode, hraw t (by simp [h]),
        show scalars (py "response_raw") = true by decide]
  simp [recordOf, Json.unicode, hlast, Json.unicodePairs, scalars_floatLit x.now.valid,
    show scalars (py "ts") = true by decide, show scalars (py "path") = true by decide,
    show scalars (py "status") = true by decide, show scalars (py "had_auth") = true by decide,
    show scalars (py "request") = true by decide, show scalars (py "response") = true by decide]

end Record

/-- A request that the adapter reads: an object whose input can be iterated and whose
reasoning settings are an object, each of them possibly missing. -/
def Readable (payload : Json) : Prop :=
  ∃ req input reasoning, asDict (orEmpty payload (.obj [])) = .ok req ∧
    listOf (orEmpty (getNone req (py "input")) (.arr [])) = .ok input ∧
    asDict (orEmpty (getNone req (py "reasoning")) (.obj [])) = .ok reasoning

section Adapter
variable {stream : Stream}

lemma foldl_extendWith (items : List (Dict PyStr Json)) (st : List Json × ℕ) :
    ((items.map Json.obj).foldl extendWith st).1 =
      st.1 ++ (items.filter fun item => !isReasoning item).map itemMessage := by
  induction items generalizing st with
  | nil => simp
  | cons item items ih =>
    rw [List.map_cons, List.foldl_cons, ih]
    by_cases h : isReasoning item = true
    · simp [extendWith, itemToMessages, h]
    · simp [extendWith, itemToMessages, h]

lemma adaptCall_completion {record : Dict PyStr Json} (items : List (Dict PyStr Json))
    (hreq : Readable (getNone record (py "request")))
    (hout : listOf (orEmpty (getNone (finalResponse record) (py "output")) (.arr [])) =
      .ok (items.map .obj)) (file : Option PyStr) :
    ∃ out, adaptCall record file = .ok out ∧
      completion out = (items.filter fun item => !isReasoning item).map itemMessage := by
  obtain ⟨req, input, reasoning, hreq, hinput, hreasoning⟩ := hreq
  have hmessages : ∀ context : List Json × ℕ,
      (((items.map Json.obj).foldl extendWith context).1).drop
        (context.1.length : ℤ).toNat = (items.filter fun item =>
          !isReasoning item).map itemMessage := by
    intro context
    rw [foldl_extendWith, Int.toNat_natCast, List.drop_left]
  simp only [adaptCall, hreq, hinput, hout, hreasoning, bind, Except.bind]
  exact ⟨_, rfl, hmessages _⟩

/-- A record of the call is appended to the track, and the adapter makes the messages of it. -/
def Delivered (gunzip : Bytes → Except PyError Bytes) (track : List Bytes) (x : Exchange)
    (file : Option PyStr) (messages : List Json) : Prop :=
  ∃ record line out, captureRecord gunzip x = .ok record ∧
    encodeUtf8 ((Json.obj record).dumps ++ py "\n") = some line ∧
    captureApiCall gunzip track x = .ok (track ++ [line]) ∧ adaptCall record file = .ok out ∧
    completion out = messages

lemma filter_doneItem (evs : List (Dict PyStr Json)) :
    ((evs.filterMap doneItem).filter fun item => !isReasoning item) = evs.filterMap wantedItem := by
  rw [List.filter_filterMap]
  rfl

lemma delivered_iff (gunzip : Bytes → Except PyError Bytes) {x : Exchange} (hs : stream.Proper)
    (htext : x.text gunzip = .ok stream.text) (hreq : Readable x.payload) (file : Option PyStr)
    (track : List Bytes) (messages : List Json) :
    Delivered gunzip track x file messages ↔ Storable x stream ∧
      messages = if stream.Closed then (stream.kept.filterMap wantedItem).map itemMessage else
        [] := by
  by_cases hclean : isSse stream.text = true → stream.any WireLine.forges = false
  case neg =>
    refine iff_of_false ?_ fun h => hclean fun hsse => (h.1.2.2 hsse).1
    rintro ⟨record, -, -, hrecord, -⟩
    obtain ⟨text, ht, hrest⟩ := bind_eq_ok.mp hrecord
    obtain rfl := Except.ok.inj (htext.symm.trans ht)
    obtain ⟨v, hv, -⟩ := bind_eq_ok.mp hrest
    rw [Classical.not_imp, Bool.not_eq_false] at hclean
    obtain ⟨e, he⟩ := responseFields_forged hs hclean.1 hclean.2
    rw [hv] at he
    exact absurd he (by simp)
  obtain ⟨v, hv, hraw, huni, hitems⟩ := responseFields_clean hs hclean
  have hrecord : captureRecord gunzip x = .ok (recordOf x v) :=
    bind_eq_ok.mpr ⟨_, htext, bind_eq_ok.mpr ⟨v, hv, rfl⟩⟩
  have hstore : Storable x stream ↔ (Json.obj (recordOf x v)).unicode = true := by
    rw [recordOf_unicode x (by rw [hraw]; simpa using text_scalars htext), huni, Storable]
    exact ⟨fun h => ⟨h.1, h.2.1, fun hsse => (h.2.2 hsse).2⟩,
      fun h => ⟨h.1, h.2.1, fun hsse => ⟨hclean hsse, h.2.2 hsse⟩⟩⟩
  have hadapt : ∃ out, adaptCall (recordOf x v) file = .ok out ∧
      completion out = if stream.Closed then (stream.kept.filterMap wantedItem).map itemMessage else
        [] := by
    rw [carriedItems, ← finalResponse_recordOf x v] at hitems
    have hreq' : Readable (getNone (recordOf x v) (py "request")) := hreq
    split_ifs at hitems ⊢
    · rw [← filter_doneItem]
      exact adaptCall_completion _ hreq' hitems file
    · exact adaptCall_completion [] hreq' hitems file
  obtain ⟨out, hout, hcompletion⟩ := hadapt
  rw [hstore, ← encodes_iff, ← hcompletion]
  constructor
  · rintro ⟨record, line, out', hrecord', hline, -, hout', rfl⟩
    obtain rfl := Except.ok.inj (hrecord.symm.trans hrecord')
    obtain rfl := Except.ok.inj (hout.symm.trans hout')
    exact ⟨⟨line, hline⟩, rfl⟩
  · rintro ⟨⟨line, hline⟩, rfl⟩
    exact ⟨_, line, out, hrecord, hline, bind_eq_ok.mpr ⟨_, hrecord,
      appendJsonl_ok_iff.mpr ⟨line, hline, rfl⟩⟩, hout, rfl⟩

lemma kept_sublist (stream : Stream) : stream.kept.Sublist stream.events := by
  induction stream with
  | nil => exact .slnil
  | cons w stream ih =>
    rw [Stream.kept, Stream.events, List.flatMap_cons, List.flatMap_cons]
    refine .append ?_ ih
    cases w with
    | field line => exact .slnil
    | event t ev =>
      rw [WireLine.read]
      split_ifs
      · exact .refl _
      · exact List.nil_sublist _

lemma length_wanted_kept_iff (stream : Stream) :
    (stream.kept.filterMap wantedItem).length = stream.wanted.length ↔ ∀ w ∈ stream, w.Whole := by
  induction stream with
  | nil => simp [Stream.kept, Stream.wanted, Stream.events]
  | cons w stream ih =>
    have hle := ((kept_sublist stream).filterMap wantedItem).length_le
    rw [List.forall_mem_cons, ← ih]
    simp only [Stream.kept, Stream.wanted, Stream.events] at hle ⊢
    cases w with
    | field line => simp [WireLine.read, WireLine.Whole]
    | event t ev =>
      by_cases hbreak : Unbroken t <;> cases hwant : wantedItem ev <;>
        simp [WireLine.read, WireLine.Whole, hbreak, hwant]
      omega

/-- Every item that is no reasoning gets its message if and only if the record of the call can
be stored and there is none, or the proxy reads a terminal event whose response is an object
and no event with such an item is broken by `splitlines`. -/
theorem streamed_items_delivered_iff (gunzip : Bytes → Except PyError Bytes) {x : Exchange}
    (hs : stream.Proper) (htext : x.text gunzip = .ok stream.text) (hreq : Readable x.payload)
    (file : Option PyStr) (track : List Bytes) :
    Delivered gunzip track x file (stream.wanted.map itemMessage) ↔
      Storable x stream ∧ (stream.wanted = [] ∨ (stream.Closed ∧ ∀ w ∈ stream, w.Whole)) := by
  rw [delivered_iff gunzip hs htext hreq, and_congr_right_iff]
  intro _
  -- the items that arrive are a sublist of the wanted ones, so only their number counts
  have hsub := (kept_sublist stream).filterMap wantedItem
  constructor
  · intro heq
    have hlen := congrArg List.length heq
    split_ifs at hlen with hclosed
    · simp only [List.length_map] at hlen
      exact .inr ⟨hclosed, (length_wanted_kept_iff stream).mp hlen.symm⟩
    · rw [List.length_nil, List.length_map, List.length_eq_zero_iff] at hlen
      exact .inl hlen
  · rintro (hnone | ⟨hclosed, hwhole⟩)
    · have hkept : stream.kept.filterMap wantedItem = [] :=
        List.sublist_nil.mp (hnone ▸ hsub : (stream.kept.filterMap wantedItem).Sublist [])
      rw [hnone, hkept]
      split_ifs <;> rfl
    · rw [if_pos hclosed, hsub.eq_of_length ((length_wanted_kept_iff stream).mpr hwhole)]
      rfl

end Adapter

def toolCall : Dict PyStr Json :=
  [(py "type", .str (py "function_call")), (py "name", .str (py "shell")),
    (py "arguments", .str (py "[]")), (py "call_id", .str (py "c1"))]

def createdEvent : Dict PyStr Json := [(py "type", .str (py "response.created"))]

def itemDoneEvent : Dict PyStr Json :=
  [(py "type", .str (py "response.output_item.done")), (py "item", .obj toolCall)]

def completedEvent : Dict PyStr Json :=
  [(py "type", .str (py "response.completed")), (py "response", .obj [(py "output", .arr [])])]

def eventName (ev : Dict PyStr Json) : PyStr := py "event: " ++ match typeOf ev with
  | .str t => t
  | _ => []

/-- Events as they are sent: the name, the JSON as `json.dumps` writes it, a blank line. -/
def sent (evs : List (Dict PyStr Json)) : Stream :=
  evs.flatMap fun ev => [.field (eventName ev), .event (Json.obj ev).dumps ev, .field []]

def exchange (stream : Stream) : Exchange where
  now := AnthropicCapture.sampleCall.now
  path := py "/responses"
  status := 200
  hadAuth := true
  payload := .obj [(py "model", .str (py "m")), (py "input", .arr [])]
  contentEncoding := none
  body := (encodeUtf8 stream.text).getD []

lemma wellFormed_sample {ev : Dict PyStr Json}
    (h : ev ∈ [createdEvent, itemDoneEvent, completedEvent]) :
    WellFormed ev := by
  simp only [List.mem_cons, List.not_mem_nil, or_false] at h
  rcases h with rfl | rfl | rfl
  · exact ⟨fun h => absurd h (by decide), fun h => absurd h (by decide)⟩
  · exact ⟨fun h => absurd h (by decide), fun h => absurd h (by decide)⟩
  · refine ⟨fun h => absurd h (by decide), fun _ d hd => ?_⟩
    obtain rfl := Json.obj.inj (Option.some.inj hd)
    rfl

lemma sent_proper {evs : List (Dict PyStr Json)}
    (hwf : ∀ ev ∈ evs, ev ∈ [createdEvent, itemDoneEvent, completedEvent]) : (sent evs).Proper := by
  have hline : ∀ ev ∈ [createdEvent, itemDoneEvent, completedEvent], isField (eventName ev) = true ∧
      Unbroken (eventName ev) ∧ LineOf (Json.obj ev).dumps ev := by decide +kernel
  intro w hw
  obtain ⟨ev, hev, hw⟩ := List.mem_flatMap.mp hw
  obtain ⟨hname, hbreak, htext⟩ := hline ev (hwf ev hev)
  simp only [List.mem_cons, List.not_mem_nil, or_false] at hw
  rcases hw with rfl | rfl | rfl
  · exact ⟨hname, hbreak⟩
  · exact ⟨htext, wellFormed_sample (hwf ev hev)⟩
  · exact ⟨rfl, by decide⟩

lemma readable_exchange (stream : Stream) :
    Readable (exchange stream).payload := ⟨_, _, _, rfl, rfl, rfl⟩

/-- A stream that breaks off after the item. -/
def unfinished : Stream := sent [createdEvent, itemDoneEvent]

def finished : Stream := sent [createdEvent, itemDoneEvent, completedEvent]

/-- The record is stored with the item, and no message shows it. -/
theorem unfinished_stream_loses_item :
    unfinished.Proper ∧ (exchange unfinished).text noGzip = .ok unfinished.text ∧
      Readable (exchange unfinished).payload ∧ unfinished.wanted = [toolCall] ∧
      (captureApiCall noGzip [] (exchange unfinished)).isOk = true ∧
      ((captureRecord noGzip (exchange unfinished)).bind
        fun record => (adaptCall record none).map completion) = .ok [] :=
  ⟨sent_proper (by simp), by decide +kernel,
    readable_exchange _, by decide +kernel, by decide +kernel,
    by decide +kernel⟩

theorem streamed_items_delivered_iff_tool_call :
    Delivered noGzip [] (exchange finished) none [itemMessage toolCall] := by
  have hs : finished.Proper := sent_proper (by simp)
  have htext : (exchange finished).text noGzip = .ok finished.text := by decide +kernel
  exact (streamed_items_delivered_iff noGzip hs htext (readable_exchange _) none
    []).mpr (by decide +kernel)

end AgentTrajectory.CodexCapture
