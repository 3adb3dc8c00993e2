import AgentTrajectory.SseEvents
import AgentTrajectory.SseLines

/-! `reconstruct_sse_message` inverts the streaming of a message, as long as no JSON text of
the stream holds a character at which `splitlines` breaks a line. -/
namespace AgentTrajectory.AnthropicCapture
open PyText PyDict PyJson PyValue SseLines

section Lines
variable {fl : Floats} {t : PyStr} {ev : Dict PyStr Json}

lemma dataOf_sseLine (h : strip (py " " ++ t) ≠ []) : dataOf (sseLine t) = some (strip (py " " ++ t)) := by
  have hsplit : sseLine t = py "data:" ++ (py " " ++ t) := rfl
  have hdrop : (sseLine t).drop 5 = py " " ++ t := rfl
  rw [dataOf, hdrop, hsplit, if_pos (startswith_append _ _)]
  simp [h]

lemma onLine_sseLine (h : LineOf t ev) (st : Stream) : onLine fl st (sseLine t) = onEvent fl st ev := by
  obtain ⟨hne, hload⟩ := loads_strip h.1 blank_isSpace
  rw [onLine, dataOf_sseLine hne]
  simp only [hload]

lemma broken_stream_raises (fl : Floats) {texts : List PyStr} (h : ∀ t ∈ texts, ∃ ev, LineOf t ev)
    (hbreak : ¬ ∀ t ∈ texts, Unbroken t) (st : Stream) :
    ∃ e, (splitlines (sseText texts)).foldlM (onLine fl) st = .error e := by
  rw [splitlines_sseText]
  induction texts generalizing st with
  | nil => simp at hbreak
  | cons t texts ih =>
    obtain ⟨ev, hev⟩ := h t (by simp)
    rw [List.flatMap_cons]
    by_cases hclean : Unbroken t
    · rw [lineParts_unbroken hclean, List.singleton_append, List.foldlM_cons]
      cases hone : onLine fl st (sseLine t) with
      | error e => exact ⟨e, rfl⟩
      | ok st₁ =>
        refine ih (fun u hu => h u (by simp [hu])) (fun hall => hbreak ?_) st₁
        exact List.forall_mem_cons.mpr ⟨hclean, hall⟩
    · obtain ⟨p, rest, hsplit, hne, hload⟩ := lineParts_broken hev hclean
      have hraise : onLine fl st (sseLine p) = .error .jsonDecodeError := by
        rw [onLine, dataOf_sseLine hne]
        simp only [hload]
      rw [hsplit, List.cons_append, List.foldlM_cons, hraise]
      exact ⟨_, rfl⟩

lemma splitlines_unbroken {texts : List PyStr} (h : ∀ t ∈ texts, Unbroken t) :
    splitlines (sseText texts) = texts.map sseLine := by
  rw [splitlines_sseText, List.map_eq_flatMap]
  exact List.flatMap_congr fun t ht => lineParts_unbroken (h t ht)

lemma foldlM_sseLine {texts : List PyStr} {evs : List (Dict PyStr Json)}
    (h : List.Forall₂ LineOf texts evs) (st : Stream) :
    (texts.map sseLine).foldlM (onLine fl) st = evs.foldlM (onEvent fl) st := by
  induction h generalizing st with
  | nil => rfl
  | cons hline _ ih =>
    rw [List.map_cons, List.foldlM_cons, List.foldlM_cons, onLine_sseLine hline]
    exact bind_congr fun x => ih x

end Lines

/-- The text of a stream: one line for the start of the message and one for each event. -/
def WrittenStream (m : Dict PyStr Json) (events : List Event) (texts : List PyStr) : Prop :=
  ∃ start evs, List.Forall₂ LineOf texts (start :: evs) ∧
    get? start (py "type") = some (.str (py "message_start")) ∧
    get? start (py "message") = some (.obj m) ∧
    List.Forall₂ (fun ev e => e.WrittenAs ev) evs events

/-- The message comes back if and only if no text of the stream holds a line boundary of
`splitlines`. -/
theorem streamed_message_returns_iff {fl : Floats} {m : Dict PyStr Json} {blocks : List Block}
    {events : List Event} {texts : List PyStr} (hs : Streams blocks events) (ho : Opening m)
    (hw : WrittenStream m events texts) :
    reconstructSseMessage fl (sseText texts) = .ok (some (streamed m blocks events)) ↔
      ∀ t ∈ texts, Unbroken t := by
  obtain ⟨start, evs, hlines, htype, hmsg, hevents⟩ := hw
  constructor
  · intro h
    by_contra hbreak
    have hall : ∀ t ∈ texts, ∃ ev, LineOf t ev := fun t ht => by
      obtain ⟨i, hi, rfl⟩ := List.mem_iff_getElem.mp ht
      exact ⟨_, hlines.get hi (hlines.length_eq ▸ hi)⟩
    obtain ⟨e, he⟩ := broken_stream_raises fl hall hbreak Stream.empty
    rw [reconstructSseMessage, he] at h
    simp [Except.map] at h
  · intro hclean
    obtain ⟨st, hrun, hfinal⟩ := events_return fl hs hevents ho
    have hstart : onEvent fl Stream.empty start = .ok ⟨some m, [], []⟩ := by
      rw [onEvent, getNone, htype]
      exact messageStart_ok hmsg ho
    have hfold : (start :: evs).foldlM (onEvent fl) Stream.empty = .ok st := by
      rw [List.foldlM_cons]
      exact bind_eq_ok.mpr ⟨_, hstart, hrun⟩
    rw [reconstructSseMessage, splitlines_unbroken hclean, foldlM_sseLine hlines, hfold]
    simp [Except.map, hfinal]

def openingMessage : Dict PyStr Json :=
  [(py "role", .str (py "assistant")), (py "content", .arr []),
    (py "usage", .obj [(py "input_tokens", .int 3)])]

def textBlock (s : PyStr) : Block :=
  .text [(py "type", .str (py "text")), (py "text", .str s)] s rfl

def stopReason : Dict PyStr Json := [(py "stop_reason", .str (py "end_turn"))]

def outputTokens : Dict PyStr Json := [(py "output_tokens", .int 2)]

/-- A call with an input that two deltas carry. -/
def toolBlock : Block :=
  .toolUse [(py "type", .str (py "tool_use")), (py "input", .obj [(py "n", .int 1)])]
    (.obj [(py "n", .int 1)]) rfl

/-- A text in two deltas, with the events of a tool call between them. -/
def textEvents (s : PyStr) : List Event :=
  [.blockStart 0 (textBlock s).opened, .blockDelta 0 (.text (s.take 1)),
    .blockStart 1 toolBlock.opened, .blockDelta 1 (.inputJson (py "\x7b\"n\"")),
    .blockDelta 0 (.text (s.drop 1)), .blockStop 0, .blockDelta 1 (.inputJson (py ":1\x7d")),
    .blockStop 1, .messageDelta stopReason (some outputTokens)]

def deltaLine (i : ℕ) (p : Piece) : Dict PyStr Json :=
  [(py "type", .str (py "content_block_delta")), (py "index", .int i),
    (py "delta", .obj [(py "type", .str p.type), (p.field, .str p.body)])]

def startLine (i : ℕ) (block : Dict PyStr Json) : Dict PyStr Json :=
  [(py "type", .str (py "content_block_start")), (py "index", .int i), (py "content_block", .obj block)]

def stopLine (i : ℕ) : Dict PyStr Json :=
  [(py "type", .str (py "content_block_stop")), (py "index", .int i)]

def textStream (s : PyStr) : List (Dict PyStr Json) :=
  [[(py "type", .str (py "message_start")), (py "message", .obj openingMessage)],
    startLine 0 (textBlock s).opened, deltaLine 0 (.text (s.take 1)), startLine 1 toolBlock.opened,
    deltaLine 1 (.inputJson (py "\x7b\"n\"")), deltaLine 0 (.text (s.drop 1)), stopLine 0,
    deltaLine 1 (.inputJson (py ":1\x7d")), stopLine 1,
    [(py "type", .str (py "message_delta")), (py "delta", .obj stopReason),
      (py "usage", .obj outputTokens)]]

def textLines (s : PyStr) : List PyStr := (textStream s).map fun ev => (Json.obj ev).dumps

lemma textEvents_stream (s : PyStr) : Streams [textBlock s, toolBlock] (textEvents s) where
  block i b hb := by
    obtain ⟨hi, rfl⟩ := List.getElem?_eq_some_iff.mp hb
    obtain rfl | rfl : i = 0 ∨ i = 1 := by
      simp at hi
      omega
    · exact ⟨[.text (s.take 1), .text (s.drop 1)], ⟨[s.take 1, s.drop 1], rfl, by cases s <;> simp⟩, rfl⟩
    · exact ⟨[.inputJson (py "\x7b\"n\""), .inputJson (py ":1\x7d")],
        ⟨[py "\x7b\"n\"", py ":1\x7d"], rfl, .inr (by decide +kernel)⟩, rfl⟩
  only i hi := by
    have hne : i ≠ 0 ∧ i ≠ 1 := by
      simp at hi
      omega
    simp [textEvents, Event.touches, hne]
  usage d u h := by
    obtain ⟨rfl, -⟩ : d = stopReason ∧ u = some outputTokens := by simpa [textEvents] using h
    rfl

lemma openingMessage_opening : Opening openingMessage := by
  refine ⟨by decide, fun v hv => ?_⟩
  obtain rfl := Option.some.inj hv
  exact ⟨_, rfl⟩

def noNewline (t : PyStr) : Bool := t.all fun c => c != cp '\n' && c != cp '\r'

lemma textLines_written {s : PyStr}
    (h : (textStream s).all fun ev => decide (loads (Json.obj ev).dumps = some (.obj ev)) &&
      noNewline (Json.obj ev).dumps) : WrittenStream openingMessage (textEvents s) (textLines s) := by
  refine ⟨(textStream s).headD [], (textStream s).tail, ?_, rfl, rfl, ?_⟩
  · change List.Forall₂ LineOf (textLines s) (textStream s)
    rw [textLines, List.forall₂_map_left_iff]
    refine List.forall₂_same.mpr fun ev hev => ?_
    have := List.all_eq_true.mp h ev hev
    simp only [Bool.and_eq_true, decide_eq_true_eq, noNewline, List.all_eq_true, bne_iff_ne] at this
    exact this
  · have hstart (i : ℕ) (b : Dict PyStr Json) : (Event.blockStart i b).WrittenAs (startLine i b) :=
      ⟨rfl, rfl, rfl⟩
    have hdelta (i : ℕ) {p : Piece} (h : p.field ≠ py "type") :
        (Event.blockDelta i p).WrittenAs (deltaLine i p) :=
      ⟨rfl, rfl, _, rfl, rfl, by simp [get?_cons, h.symm]⟩
    have hstop (i : ℕ) : (Event.blockStop i).WrittenAs (stopLine i) := ⟨rfl, rfl⟩
    have htext (i : ℕ) (s : PyStr) := @hdelta i (.text s) (show py "text" ≠ py "type" by decide)
    have hjson (i : ℕ) (s : PyStr) := @hdelta i (.inputJson s)
      (show py "partial_json" ≠ py "type" by decide)
    exact .cons (hstart ..) (.cons (htext ..) (.cons (hstart ..) (.cons (hjson ..) (.cons (htext ..)
      (.cons (hstop _) (.cons (hjson ..) (.cons (hstop _) (.cons ⟨rfl, rfl, rfl⟩ .nil))))))))

/-- A raw U+2028 in a text delta. -/
def separatorText : PyStr := [cp 'a', 0x2028, cp 'b']

theorem line_separator_breaks_stream :
    Streams [textBlock separatorText, toolBlock] (textEvents separatorText) ∧ Opening openingMessage ∧
      WrittenStream openingMessage (textEvents separatorText) (textLines separatorText) ∧
      reconstructSseMessage ⟨.float, fun _ _ => .error .typeError⟩ (sseText (textLines separatorText)) ≠
        .ok (some (streamed openingMessage [textBlock separatorText, toolBlock]
          (textEvents separatorText))) :=
  ⟨textEvents_stream _, openingMessage_opening, textLines_written (by decide +kernel),
    by decide +kernel⟩

theorem streamed_message_returns_iff_hello :
    reconstructSseMessage ⟨.float, fun _ _ => .error .typeError⟩ (sseText (textLines (py "hello"))) =
      .ok (some [(py "role", .str (py "assistant")),
        (py "content", .arr [.obj [(py "type", .str (py "text")), (py "text", .str (py "hello"))],
          .obj [(py "type", .str (py "tool_use")), (py "input", .obj [(py "n", .int 1)])]]),
        (py "usage", .obj [(py "input_tokens", .int 3), (py "output_tokens", .int 2)]),
        (py "stop_reason", .str (py "end_turn"))]) := by
  refine (streamed_message_returns_iff (textEvents_stream _) openingMessage_opening
    (textLines_written (by decide +kernel))).mpr ?_
  decide +kernel

end AgentTrajectory.AnthropicCapture
