import AgentTrajectory.AnthropicCapture

/-! When a captured call leaves its record: the body unpacks, every event of a stream fits what
the events before it built, no string of the record is a lone surrogate, and a body that is kept
as text is UTF-8. -/
namespace AgentTrajectory.AnthropicCapture
open PyText PyDict PyJson PyValue MessageTree

section Fits
variable (fl : Floats) (st : Stream)

/-- `a + b` is defined. -/
def Addable (a b : Json) : Prop :=
  (∃ s t, a = .str s ∧ b = .str t) ∨ (∃ xs ys, a = .arr xs ∧ b = .arr ys) ∨
    (∃ m n, asIndex a = .ok m ∧ asIndex b = .ok n) ∨
    (isNumber a = true ∧ isNumber b = true ∧ ∃ v, fl.add a b = .ok v)

/-- What `dict.update` takes: an object, a list of pairs, or the empty string. -/
def Updating (v : Json) : Prop :=
  (∃ e, v = .obj e) ∨ (∃ xs, v = .arr xs ∧ ∀ x ∈ xs, (pairOf x).isOk = true) ∨ v = .str []

def BlockAt (blocks : List Json) (i : Json) (block : Dict PyStr Json) : Prop :=
  ∃ n k, asIndex i = .ok n ∧ position blocks.length n = .ok k ∧ blocks.getD k .null = .obj block

def FitsStart (ev : Dict PyStr Json) : Prop :=
  ∃ msg, get? ev (py "message") = some (.obj msg) ∧
    ((getNone msg (py "content")).truthy = true → iterable (getNone msg (py "content")) = true)

def FitsBlock (ev : Dict PyStr Json) : Prop :=
  ∃ i n, get? ev (py "index") = some i ∧ asIndex i = .ok n ∧ 0 ≤ st.blocks.length + n ∧
    (get? ev (py "content_block")).isSome = true

def FitsField (i : Json) (d : Dict PyStr Json) (field : PyStr) : Prop :=
  ∃ block piece, BlockAt st.blocks i block ∧ get? d field = some piece ∧
    Addable fl ((get? block field).getD (.str [])) piece

def FitsPartial (i : Json) (d : Dict PyStr Json) : Prop :=
  hashable i = true ∧ ∃ s, get? d (py "partial_json") = some (.str s)

def FitsDelta (ev : Dict PyStr Json) : Prop :=
  ∃ i d, get? ev (py "index") = some i ∧ get? ev (py "delta") = some (.obj d) ∧
    let dt := getNone d (py "type")
    if dt = .str (py "text_delta") then FitsField fl st i d (py "text")
    else if dt = .str (py "thinking_delta") then FitsField fl st i d (py "thinking")
    else if dt = .str (py "input_json_delta") then FitsPartial i d
    else if dt = .str (py "signature_delta") then FitsField fl st i d (py "signature")
    else True

def FitsStop (ev : Dict PyStr Json) : Prop :=
  ∃ i key, get? ev (py "index") = some i ∧ hashKey fl i = .ok key ∧
    ((get? st.partialJson key).getD [] ≠ [] → ∃ block, BlockAt st.blocks i block)

def FitsMessageDelta (ev : Dict PyStr Json) : Prop :=
  ∀ msg, st.msg = some msg → ∃ msg',
    updateWith msg (orEmpty (getNone ev (py "delta")) (.obj [])) = .ok msg' ∧
    ((getNone ev (py "usage")).truthy = true → Updating (getNone ev (py "usage")) ∧
      ∃ cur, (get? msg' (py "usage")).getD (.obj []) = .obj cur)

def Fits (ev : Dict PyStr Json) : Prop :=
  let t := getNone ev (py "type")
  if t = .str (py "message_start") then FitsStart ev
  else if t = .str (py "content_block_start") then FitsBlock st ev
  else if t = .str (py "content_block_delta") then FitsDelta fl st ev
  else if t = .str (py "content_block_stop") then FitsStop fl st ev
  else if t = .str (py "message_delta") then FitsMessageDelta st ev
  else True

def LineFits (line : PyStr) : Prop :=
  ∀ data, dataOf line = some data → ∃ ev, loads data = some (.obj ev) ∧ Fits fl st ev

def Fitting : Stream → List PyStr → Prop
  | _, [] => True
  | st, line :: lines => LineFits fl st line ∧ ∀ st',
    onLine fl st line = .ok st' → Fitting st' lines

end Fits

section Steps
variable {fl : Floats} {st : Stream} {ev d : Dict PyStr Json} {i v : Json} {field : PyStr}

lemma getItem_eq_ok {k : PyStr} : getItem d k = .ok v ↔ get? d k = some v := by
  rw [getItem]
  cases get? d k <;> simp

lemma add_ok_iff {a b : Json} : (∃ v, add fl a b = .ok v) ↔ Addable fl a b := by
  rw [Addable]
  cases a <;> cases b <;> simp [add, asIndex, isNumber]

lemma updateWith_ok_iff {cur : Dict PyStr Json} :
    (∃ new, updateWith cur v = .ok new) ↔ Updating v := by
  rw [Updating]
  cases v with
  | arr xs =>
    rw [updateWith]
    simp only [map_eq_ok]
    rw [exists_comm]
    simp [exists_mapM_eq_ok]
  | str s => cases s <;> simp [updateWith]
  | _ => simp [updateWith]

lemma position_ok_iff {len : ℕ} {i : ℤ} :
    (∃ k, position len i = .ok k) ↔ 0 ≤ len + i ∧ i < len := by
  rw [position]
  split_ifs with h1 h2
  · exact iff_of_true ⟨_, rfl⟩ (by omega)
  · exact iff_of_true ⟨_, rfl⟩ (by omega)
  · exact iff_of_false (by simp) (by omega)

lemma itemAt_eq_ok {blocks : List Json} {p : ℕ × Json} : itemAt blocks i = .ok p ↔
    ∃ n, asIndex i = .ok n ∧ position blocks.length n = .ok p.1 ∧ blocks.getD p.1 .null = p.2 := by
  simp only [itemAt, bind_eq_ok]
  constructor
  · rintro ⟨k, ⟨n, hn, hk⟩, hp⟩
    obtain rfl := Except.ok.inj hp
    exact ⟨n, hn, hk, rfl⟩
  · rintro ⟨n, hn, hk, hp⟩
    exact ⟨p.1, ⟨n, hn, hk⟩, by rw [hp]⟩

lemma messageStart_ok_iff : (∃ st', messageStart st ev = .ok st') ↔ FitsStart ev := by
  have hiter (c : Json) : iterable (orEmpty c (.arr [])) = true ↔
      (c.truthy = true → iterable c = true) := by
    rw [orEmpty]
    split_ifs with hc <;> simp [hc, iterable]
  simp [messageStart, exists_bind_eq_ok, getItem_eq_ok, asDict_eq_ok,
    listOf_eq_ok, hiter, FitsStart]

lemma contentBlockStart_ok_iff : (∃ st', contentBlockStart st ev = .ok st') ↔ FitsBlock st ev := by
  have hpad (n : ℤ) : (∃ k, position (padTo st.blocks n).length n = .ok k) ↔
      0 ≤ st.blocks.length + n := by
    rw [position_ok_iff, padTo, List.length_append, List.length_replicate]
    omega
  simp [contentBlockStart, bind_eq_ok, getItem_eq_ok, FitsBlock, ← hpad,
    Option.isSome_iff_exists, and_comm]

lemma appendField_ok_iff :
    (∃ st', appendField fl st i d field = .ok st') ↔ FitsField fl st i d field := by
  simp only [appendField, bind_eq_ok, getItem_eq_ok, asDict_eq_ok, itemAt_eq_ok, FitsField, BlockAt,
    ← add_ok_iff]
  constructor
  · rintro ⟨-, ⟨k, item⟩, ⟨n, hn, hk, hitem⟩, block, rfl, piece, hpiece, text, htext, -⟩
    exact ⟨block, piece, ⟨n, k, hn, hk, hitem⟩, hpiece, text, htext⟩
  · rintro ⟨block, piece, ⟨n, k, hn, hk, hitem⟩, hpiece, text, htext⟩
    exact ⟨_, (k, .obj block), ⟨n, hn, hk, hitem⟩, block, rfl, piece, hpiece, text, htext, rfl⟩

lemma hashKey_ok_iff : (∃ key, hashKey fl i = .ok key) ↔ hashable i = true := by
  cases i <;> simp [hashKey, hashable]

lemma appendPartial_ok_iff : (∃ st', appendPartial fl st i d = .ok st') ↔ FitsPartial i d := by
  simp only [appendPartial, bind_eq_ok, getItem_eq_ok, FitsPartial, ← @hashKey_ok_iff fl]
  constructor
  · rintro ⟨st', key, hkey, piece, hpiece, hst⟩
    cases piece with
    | str s => exact ⟨⟨key, hkey⟩, s, hpiece⟩
    | _ => simp at hst
  · rintro ⟨⟨key, hkey⟩, s, hpiece⟩
    exact ⟨_, key, hkey, .str s, hpiece, rfl⟩

lemma contentBlockDelta_ok_iff :
    (∃ st', contentBlockDelta fl st ev = .ok st') ↔ FitsDelta fl st ev := by
  simp only [contentBlockDelta, exists_bind_eq_ok, exists_ite_eq_ok, appendField_ok_iff,
    appendPartial_ok_iff, FitsDelta]
  simp [bind_eq_ok, getItem_eq_ok, asDict_eq_ok]

lemma storeInput_ok_iff {text : PyStr} :
    (∃ st', storeInput st i text = .ok st') ↔ ∃ block, BlockAt st.blocks i block := by
  simp only [storeInput, bind_eq_ok, itemAt_eq_ok, BlockAt]
  constructor
  · rintro ⟨st', ⟨k, item⟩, ⟨n, hn, hk, hitem⟩, hst⟩
    cases item with
    | obj block => exact ⟨block, n, k, hn, hk, hitem⟩
    | _ => simp at hst
  · rintro ⟨block, n, k, hn, hk, hitem⟩
    exact ⟨_, (k, .obj block), ⟨n, hn, hk, hitem⟩, rfl⟩

lemma contentBlockStop_ok_iff :
    (∃ st', contentBlockStop fl st ev = .ok st') ↔ FitsStop fl st ev := by
  simp [contentBlockStop, exists_bind_eq_ok, exists_ite_eq_ok, storeInput_ok_iff,
    getItem_eq_ok, FitsStop]

lemma mergeUsage_ok_iff {msg : Dict PyStr Json} : (∃ msg', mergeUsage msg v = .ok msg') ↔
    Updating v ∧ ∃ cur, (get? msg (py "usage")).getD (.obj []) = .obj cur := by
  simp [mergeUsage, exists_bind_eq_ok, asDict_eq_ok, updateWith_ok_iff, and_comm]

lemma messageDelta_ok_iff : (∃ st', messageDelta st ev = .ok st') ↔ FitsMessageDelta st ev := by
  rw [messageDelta, FitsMessageDelta]
  cases st.msg with
  | none => simp
  | some msg => simp [exists_bind_eq_ok, exists_ite_eq_ok, mergeUsage_ok_iff]

lemma onEvent_ok_iff : (∃ st', onEvent fl st ev = .ok st') ↔ Fits fl st ev := by
  simp only [onEvent, Fits]
  split_ifs
  · exact messageStart_ok_iff
  · exact contentBlockStart_ok_iff
  · exact contentBlockDelta_ok_iff
  · exact contentBlockStop_ok_iff
  · exact messageDelta_ok_iff
  · simp

lemma onLine_ok_iff {line : PyStr} :
    (∃ st', onLine fl st line = .ok st') ↔ LineFits fl st line := by
  rw [onLine, LineFits]
  cases hdata : dataOf line with
  | none => simp
  | some data =>
    simp only [Option.some.injEq, forall_eq']
    cases hv : loads data with
    | none => simp
    | some v => cases v <;> simp [onEvent_ok_iff]

lemma foldlM_ok_iff {lines : List PyStr} :
    (∃ st', lines.foldlM (onLine fl) st = .ok st') ↔ Fitting fl st lines := by
  induction lines generalizing st with
  | nil => exact iff_of_true ⟨st, rfl⟩ trivial
  | cons line lines ih =>
    simp only [List.foldlM_cons, bind_eq_ok, Fitting, ← onLine_ok_iff, ← ih]
    constructor
    · rintro ⟨st', st₁, h₁, hrest⟩
      refine ⟨⟨st₁, h₁⟩, fun st₂ h₂ => ?_⟩
      obtain rfl := Except.ok.inj (h₁.symm.trans h₂)
      exact ⟨st', hrest⟩
    · rintro ⟨⟨st₁, h₁⟩, hrest⟩
      obtain ⟨st', hst⟩ := hrest st₁ h₁
      exact ⟨st', st₁, h₁, hst⟩

lemma responseValue_ok_iff {r : Response} {text : PyStr} :
    (∃ value, responseValue fl r text = .ok value) ↔
    (r.isStream = true → Fitting fl Stream.empty (splitlines text)) := by
  rw [responseValue, exists_ite_eq_ok, ← foldlM_ok_iff]
  split_ifs with hs
  · simp [reconstructSseMessage, map_eq_ok, hs]
  · simp [hs]

end Steps

/-- The record holds the request and the response: rebuilt, parsed, or the very body as text. -/
def Carries (fl : Floats) (payload : Dict PyStr Json) (r : Response) (body : Bytes)
    (record : Json) : Prop :=
  ∃ d, record = .obj d ∧ get? d (py "request") = some (.obj payload) ∧
    ((r.isStream = true ∧ ∃ m, reconstructSseMessage fl (decodeUtf8 body) = .ok (some m) ∧
        get? d (py "response") = some (.obj m)) ∨
      (r.isStream = false ∧ ∃ v, loads (decodeUtf8 body) = some v ∧
        get? d (py "response") = some v) ∨
      ∃ text, encodeUtf8 text = some body ∧ get? d (py "response_raw") = some (.str text))

/-- Exactly one line is appended, the line of the call's record, which carries the response. -/
def Recorded (gunzip : Bytes → Except PyError Bytes) (fl : Floats) (c : Call) (r : Response)
    (track track' : List Bytes) : Prop :=
  ∃ body record line, r.unpacked gunzip = .ok body ∧ callRecord gunzip fl c r = .ok record ∧
    encodeUtf8 (record.dumps ++ py "\n") = some line ∧ track' = track ++ [line] ∧
    Carries fl c.payload r body record

/-- The body unpacks, the events of a stream fit, nothing of the call or of the response is
beyond UTF-8, and where there is no value to store the body is UTF-8. -/
def Recordable (gunzip : Bytes → Except PyError Bytes) (fl : Floats) (c : Call) (r : Response) :
    Prop :=
  ∃ body, r.unpacked gunzip = .ok body ∧
    (r.isStream = true → Fitting fl Stream.empty (splitlines (decodeUtf8 body))) ∧
    c.sessionId.unicode = true ∧ (Json.obj c.payload).unicode = true ∧
    ∀ value, responseValue fl r (decodeUtf8 body) = .ok value →
      (∀ v ∈ value, v.unicode = true) ∧ (value = none → encodeUtf8 (decodeUtf8 body) = some body)

section Threads

lemma branchId_scalars {ks : List PyStr} {b : PyStr} (h : branchId ks = .ok b) :
    scalars b = true := by
  rw [branchId] at h
  obtain ⟨d, hd, hb⟩ := bind_eq_ok.mp h
  obtain rfl := Except.ok.inj hb
  rw [sha] at hd
  cases he : encodeUtf8 (join unitSep ks) with
  | none => simp [he] at hd
  | some bs =>
    simp only [he, Except.ok.injEq] at hd
    subst hd
    have htake : scalars ((Sha256.hexdigest bs).take 12) = true :=
      scalars_of_ascii fun c hc => Sha256.hexdigest_ascii bs c (List.mem_of_mem_take hc)
    rw [scalars_append, htake]
    decide

lemma stamp_fresh_scalars {seq : List (Json × PyStr)} {anchor : Ref} {real : Bool} {b : PyStr}
    (h : (stamp (mountLoop Tree.empty ([], []) none seq).1 anchor real).2 = .ok b) :
    scalars b = true := by
  have hst : Stamped (· = anchor) (mountLoop Tree.empty ([], []) none seq).1 :=
    mountLoop_stamped (stamped_empty _) (by simp) none seq
  have hG : ∀ p ks ls, (p, ks) = anchor → (p, ls) = anchor → ks = ls := fun p ks ls h₁ h₂ =>
    (Prod.mk.inj (h₁.trans h₂.symm)).2
  exact branchId_scalars ((stamp_spec hG hst rfl real).1.symm.trans h)

lemma mountCall_fresh_scalars {system : Json} {messages : List Json}
    {tid : PyStr} {provisional : Bool}
    (h : (mountCall Tree.empty system messages).2 = .ok (tid, provisional)) :
    scalars tid = true := by
  rw [mountCall] at h
  cases hseq : callSeq system messages with
  | error e => simp [hseq] at h
  | ok seq =>
    simp only [hseq] at h
    cases hloop : (mountLoop Tree.empty ([], []) none seq).2 with
    | error e =>
      rw [show mountLoop Tree.empty ([], []) none seq =
        ((mountLoop Tree.empty ([], []) none seq).1, .error e) by rw [← hloop]] at h
      simp at h
    | ok out =>
      obtain ⟨last, anchor⟩ := out
      rw [show mountLoop Tree.empty ([], []) none seq =
        ((mountLoop Tree.empty ([], []) none seq).1, .ok (last, anchor)) by rw [← hloop]] at h
      cases anchor with
      | none =>
        cases hs : (stamp (mountLoop Tree.empty ([], []) none seq).1 last false).2 with
        | error e => simp [hs, Except.map] at h
        | ok b =>
          simp only [hs, Except.map, Except.ok.injEq, Prod.mk.injEq] at h
          exact h.1 ▸ stamp_fresh_scalars hs
      | some a =>
        cases hs : (stamp (mountLoop Tree.empty ([], []) none seq).1 a true).2 with
        | error e => simp [hs, Except.map] at h
        | ok b =>
          simp only [hs, Except.map, Except.ok.injEq, Prod.mk.injEq] at h
          exact h.1 ▸ stamp_fresh_scalars hs

lemma threadFields_unicode (payload : Dict PyStr Json) :
    Json.unicodePairs (threadFields payload) = true := by
  rw [threadFields]
  split
  · rename_i tid h
    split at h
    · simp [Json.unicodePairs, Json.unicode, mountCall_fresh_scalars h,
        show scalars (py "thread_id") = true by decide]
    · simp at h
  · rename_i tid h
    split at h
    · simp [Json.unicodePairs, Json.unicode, mountCall_fresh_scalars h,
        show scalars (py "thread_id") = true by decide,
        show scalars (py "thread_id_provisional") = true by decide]
    · simp at h
  · rfl

end Threads

section Record
variable {gunzip : Bytes → Except PyError Bytes} {fl : Floats} {c : Call} {r : Response}

lemma systemToolsSha_scalars {payload : Dict PyStr Json} {d : PyStr}
    (h : systemToolsSha payload = .ok d) : scalars d = true := by
  rw [systemToolsSha, sha] at h
  split at h
  · simp at h
  · obtain rfl := Except.ok.inj h
    exact scalars_of_ascii (Sha256.hexdigest_ascii _)

lemma unicodePairs_append (f g : Dict PyStr Json) :
    Json.unicodePairs (f ++ g) = (Json.unicodePairs f && Json.unicodePairs g) := by
  induction f with
  | nil => rfl
  | cons kv f ih => simp [Json.unicodePairs, ih, Bool.and_assoc]

lemma recordOf_unicode (hsha : systemToolsSha c.payload = .ok c.sha) (status : ℤ)
    (response : Json × Option PyStr) (hraw : ∀ t ∈ response.2, scalars t = true) :
    (recordOf c status response).unicode =
      (c.sessionId.unicode && (Json.obj c.payload).unicode && response.1.unicode) := by
  have hlast : Json.unicodePairs (response.2.map fun text =>
    (py "response_raw", Json.str text)).toList
      = true := by
    cases h : response.2 with
    | none => rfl
    | some t => simp [Json.unicodePairs, Json.unicode, hraw t (by simp [h]),
        show scalars (py "response_raw") = true by decide]
  simp [recordOf, Json.unicode, unicodePairs_append, threadFields_unicode, hlast, Json.unicodePairs,
    scalars_floatLit c.now.valid, systemToolsSha_scalars hsha, Bool.and_assoc,
    show scalars (py "ts") = true by decide, show scalars (py "session_id") = true by decide,
    show scalars (py "sha") = true by decide, show scalars (py "status") = true by decide,
    show scalars (py "request") = true by decide, show scalars (py "response") = true by decide]

lemma appendJsonl_ok_iff {track track' : List Bytes} {record : Json} :
    appendJsonl track record = .ok track' ↔
      ∃ line, encodeUtf8 (record.dumps ++ py "\n") = some line ∧ track' = track ++ [line] := by
  rw [appendJsonl]
  cases encodeUtf8 (record.dumps ++ py "\n") with
  | none => simp
  | some line => simp [eq_comm]

lemma encodes_iff {record : Json} :
    (∃ line, encodeUtf8 (record.dumps ++ py "\n") = some line) ↔ record.unicode = true := by
  rw [← Option.isSome_iff_exists, encodeUtf8_isSome, scalars_append, scalars_dumps,
    show scalars (py "\n") = true by decide, Bool.and_true]

lemma threadFields_raw (payload : Dict PyStr Json) :
    get? (threadFields payload) (py "response_raw") = none := by
  rw [threadFields]
  split <;> rfl

lemma get?_recordOf (c : Call) (status : ℤ) (response : Json × Option PyStr) :
    ∃ d, recordOf c status response = .obj d ∧ get? d (py "request") = some (.obj c.payload) ∧
      get? d (py "response") = some response.1 ∧
      ∀ text ∈ response.2, get? d (py "response_raw") = some (.str text) := by
  refine ⟨_, rfl, rfl, rfl, fun text ht => ?_⟩
  rw [Option.mem_def.mp ht, get?_append, get?_append, threadFields_raw]
  rfl

lemma scalars_orText (v : Option Json) (body : Bytes) :
    ∀ t ∈ (orText (decodeUtf8 body) v).2, scalars t = true := by
  intro t ht
  cases v with
  | some v => simp [orText] at ht
  | none =>
    obtain rfl : decodeUtf8 body = t := by simpa [orText] using ht
    exact scalars_decodeUtf8 body

lemma unicode_orText {text : PyStr} {v : Option Json} :
    (orText text v).1.unicode = true ↔ ∀ x ∈ v, x.unicode = true := by
  cases v <;> simp [orText, Json.unicode]

lemma recordOf_orText_unicode (hsha : systemToolsSha c.payload = .ok c.sha) (body : Bytes)
    (value : Option Json) :
    (recordOf c r.status (orText (decodeUtf8 body) value)).unicode = true ↔
      c.sessionId.unicode = true ∧ (Json.obj c.payload).unicode = true ∧
        ∀ v ∈ value, v.unicode = true := by
  rw [recordOf_unicode hsha _ _ (scalars_orText value body), Bool.and_eq_true, Bool.and_eq_true,
    unicode_orText, and_assoc]

lemma responseValue_some {text : PyStr} {v : Json} (h : responseValue fl r text = .ok (some v)) :
    (r.isStream = true ∧ ∃ m, reconstructSseMessage fl text = .ok (some m) ∧ v = .obj m) ∨
      (r.isStream = false ∧ loads text = some v) := by
  rw [responseValue] at h
  split_ifs at h with hs
  · obtain ⟨m, hm, hv⟩ := map_eq_ok.mp h
    obtain ⟨m, rfl, rfl⟩ := Option.map_eq_some_iff.mp hv
    exact .inl ⟨hs, m, hm, rfl⟩
  · exact .inr ⟨by simpa using hs, Except.ok.inj h⟩

lemma responseValue_none {text : PyStr} (h : responseValue fl r text = .ok none) :
    (r.isStream = true ∧ reconstructSseMessage fl text = .ok none) ∨
      (r.isStream = false ∧ loads text = none) := by
  rw [responseValue] at h
  split_ifs at h with hs
  · obtain ⟨m, hm, hv⟩ := map_eq_ok.mp h
    obtain rfl := Option.map_eq_none_iff.mp hv
    exact .inl ⟨hs, hm⟩
  · exact .inr ⟨by simpa using hs, Except.ok.inj h⟩

lemma recordOf_carries_iff {body : Bytes} {value : Option Json}
    (h : responseValue fl r (decodeUtf8 body) = .ok value) :
    Carries fl c.payload r body (recordOf c r.status (orText (decodeUtf8 body) value)) ↔
      (value = none → encodeUtf8 (decodeUtf8 body) = some body) := by
  obtain ⟨d, hd, hreq, hresp, hraw⟩ := get?_recordOf c r.status (orText (decodeUtf8 body) value)
  rw [hd]
  cases value with
  | some v =>
    refine iff_of_true ⟨d, rfl, hreq, ?_⟩ (by simp)
    rcases responseValue_some h with ⟨hs, m, hm, rfl⟩ | ⟨hs, hv⟩
    · exact .inl ⟨hs, m, hm, hresp⟩
    · exact .inr (.inl ⟨hs, v, hv, hresp⟩)
  | none =>
    refine ⟨?_, fun hutf => ⟨d, rfl, hreq, .inr (.inr ⟨_, hutf rfl, hraw _ rfl⟩)⟩⟩
    rintro ⟨d', hd', -, ⟨hs, m, hm, -⟩ | ⟨hs, v, hv, -⟩ | ⟨text, htext, hget⟩⟩ -
    · rcases responseValue_none h with ⟨-, hnone⟩ | ⟨hs', -⟩
      · rw [hm] at hnone
        exact absurd hnone (by simp)
      · rw [hs] at hs'
        exact absurd hs' (by decide)
    · rcases responseValue_none h with ⟨hs', -⟩ | ⟨-, hnone⟩
      · rw [hs] at hs'
        exact absurd hs' (by decide)
      · rw [hv] at hnone
        exact absurd hnone (by simp)
    · obtain rfl := Json.obj.inj hd'
      rw [hraw _ rfl] at hget
      obtain rfl := Json.str.inj (Option.some.inj hget)
      exact htext

lemma callRecord_eq_ok {record : Json} : callRecord gunzip fl c r = .ok record ↔
    ∃ body value, r.unpacked gunzip = .ok body ∧ responseValue fl r (decodeUtf8 body) = .ok value ∧
      record = recordOf c r.status (orText (decodeUtf8 body) value) := by
  simp only [callRecord, bind_eq_ok, Except.ok.injEq]
  constructor
  · rintro ⟨body, hbody, value, hvalue, rfl⟩
    exact ⟨body, value, hbody, hvalue, rfl⟩
  · rintro ⟨body, value, hbody, hvalue, rfl⟩
    exact ⟨body, hbody, value, hvalue, rfl⟩

/-- A call leaves exactly one record of itself if and only if it is recordable. -/
theorem captured_call_recorded_iff (hsha : systemToolsSha c.payload = .ok c.sha)
    (track : List Bytes) :
    Recorded gunzip fl c r track (proxyCapture gunzip fl track c r) ↔ Recordable gunzip fl c r := by
  constructor
  · rintro ⟨body, record, line, hbody, hrecord, hline, -, hcarries⟩
    obtain ⟨body', value, hbody', hvalue, rfl⟩ := callRecord_eq_ok.mp hrecord
    obtain rfl := Except.ok.inj (hbody.symm.trans hbody')
    obtain ⟨hsession, hpayload, huni⟩ := (recordOf_orText_unicode hsha body value).mp
      (encodes_iff.mp ⟨line, hline⟩)
    refine ⟨body, hbody, responseValue_ok_iff.mp ⟨value, hvalue⟩, hsession,
      hpayload, fun v hv => ?_⟩
    obtain rfl := Except.ok.inj (hvalue.symm.trans hv)
    exact ⟨huni, (recordOf_carries_iff hvalue).mp hcarries⟩
  · rintro ⟨body, hbody, hfit, hsession, hpayload, hvalues⟩
    obtain ⟨value, hvalue⟩ := responseValue_ok_iff.mpr hfit
    obtain ⟨huni, hutf⟩ := hvalues value hvalue
    obtain ⟨line, hline⟩ := encodes_iff.mpr
      ((recordOf_orText_unicode (r := r) hsha body value).mpr ⟨hsession, hpayload, huni⟩)
    have hrecord : callRecord gunzip fl c r =
      .ok (recordOf c r.status (orText (decodeUtf8 body) value)) :=
      callRecord_eq_ok.mpr ⟨body, value, hbody, hvalue, rfl⟩
    have hcap : captureApiCall gunzip fl track c r = .ok (track ++ [line]) :=
      bind_eq_ok.mpr ⟨_, hrecord, appendJsonl_ok_iff.mpr ⟨line, hline, rfl⟩⟩
    exact ⟨body, _, line, hbody, hrecord, hline, by rw [proxyCapture, hcap],
      (recordOf_carries_iff hvalue).mpr hutf⟩

end Record

/-- Floats that take part in nothing. -/
def plainFloats : Floats := ⟨.float, fun _ _ => .error .typeError⟩

def noGzip (_ : Bytes) : Except PyError Bytes := .error .badGzipFile

def samplePayload : Dict PyStr Json := [(py "model", .str (py "m"))]

def sampleCall : Call where
  now := ⟨py "1.5", by decide⟩
  sessionId := .str (py "s")
  payload := samplePayload
  sha := (systemToolsSha samplePayload).toOption.getD []

def streamOf (body : PyStr) : Response where
  status := 200
  contentEncoding := none
  contentType := some (py "text/event-stream; charset=utf-8")
  body := (encodeUtf8 body).getD []

lemma systemToolsSha_sampleCall : systemToolsSha sampleCall.payload = .ok sampleCall.sha := by
  decide +kernel

/-- A delta for a block that was never started. -/
def strayDelta : PyStr := py ("data: \x7b\"type\": \"content_block_delta\", \"index\": 0, " ++
  "\"delta\": \x7b\"type\": \"text_delta\", \"text\": \"hi\"\x7d\x7d\n")

/-- The call disappears: nothing is appended. -/
theorem stray_delta_loses_call : systemToolsSha sampleCall.payload = .ok sampleCall.sha ∧
      ¬ Recorded noGzip plainFloats sampleCall (streamOf strayDelta) []
        (proxyCapture noGzip plainFloats [] sampleCall (streamOf strayDelta)) := by
  refine ⟨systemToolsSha_sampleCall, ?_⟩
  have hnone : proxyCapture noGzip plainFloats [] sampleCall (streamOf strayDelta) = [] := by
    decide +kernel
  rw [hnone]
  rintro ⟨-, -, line, -, -, -, htrack, -⟩
  exact absurd htrack (by simp)

def startedMessage : PyStr := py (
  "data: \x7b\"type\": \"message_start\", \"message\": \x7b\"role\": \"assistant\"\x7d\x7d\n\n" ++
  "data: \x7b\"type\": \"content_block_start\", \"index\": 0, \"content_block\": \x7b\x7d\x7d\n\n" ++
  "data: \x7b\"type\": \"content_block_delta\", \"index\": 0, " ++
  "\"delta\": \x7b\"type\": \"text_delta\", \"text\": \"hi\"\x7d\x7d\n\n")

lemma unpacked_streamOf (text : PyStr) :
    (streamOf text).unpacked noGzip = .ok ((encodeUtf8 text).getD []) :=
  if_neg (by simp [streamOf])

theorem captured_call_recorded_iff_started_message :
    Recorded noGzip plainFloats sampleCall (streamOf startedMessage) []
      (proxyCapture noGzip plainFloats [] sampleCall (streamOf startedMessage)) := by
  have hunicode : ((responseValue plainFloats (streamOf startedMessage) (decodeUtf8
      ((encodeUtf8 startedMessage).getD []))).toOption.join.any Json.unicode) = true := by
    decide +kernel
  have hbody := unpacked_streamOf startedMessage
  generalize (encodeUtf8 startedMessage).getD [] = body at hunicode hbody
  cases hvalue : responseValue plainFloats (streamOf startedMessage) (decodeUtf8 body) with
  | error e => simp [hvalue, Except.toOption] at hunicode
  | ok value =>
    refine (captured_call_recorded_iff systemToolsSha_sampleCall []).mpr
      ⟨body, hbody, responseValue_ok_iff.mp ⟨value, hvalue⟩, by decide, by decide, ?_⟩
    intro value' hv
    obtain rfl := Except.ok.inj (hvalue.symm.trans hv)
    rw [hvalue] at hunicode
    cases value with
    | none => exact absurd hunicode Bool.false_ne_true
    | some v =>
      exact ⟨fun w hw => Option.some.inj hw ▸ hunicode, fun h => absurd h (Option.some_ne_none v)⟩

end AgentTrajectory.AnthropicCapture
