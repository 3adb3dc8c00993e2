import AgentTrajectory.PyRegexSub
import AgentTrajectory.CodexWireAdapter
import AgentTrajectory.Sha1

/-! `_redact_pii` and `_scrub_record`, which `codex_wire_adapter.py` and
`antigravity_transcript_adapter.py` share: identifiers in the strings of a record give way to
codes. The keys of its objects are not looked at. -/
namespace AgentTrajectory.PiiRedaction
open PyText PyDict PyJson PyRegex

/-- `\w` of the `re` module: any class that agrees with the ASCII one on ASCII. -/
structure WordChars where
  isWord : CodePoint → Bool
  ascii : ∀ c : CodePoint, c.val < 128 → isWord c =
    ((48 ≤ c.val && c.val ≤ 57) || (65 ≤ c.val && c.val ≤ 90) || c.val == 95 || (97 ≤ c.val && c.val ≤ 122))

inductive Tag
  | openId
  | appId
  | ip
  deriving DecidableEq

def Tag.name : Tag → PyStr
  | .openId => py "OPENID"
  | .appId => py "APPID"
  | .ip => py "IP"

def isHexChar (c : CodePoint) : Bool := (48 ≤ c.val && c.val ≤ 57) || (97 ≤ c.val && c.val ≤ 102)
def isIdChar (c : CodePoint) : Bool := (48 ≤ c.val && c.val ≤ 57) || (97 ≤ c.val && c.val ≤ 122)

/-- The patterns of `_PII_PATTERNS`. -/
def Tag.pattern : Tag → Regex
  | .openId => .all [.lit (py "ou_"), .run isHexChar 20 none]
  | .appId => .all [.lit (py "cli_"), .run isIdChar 12 none]
  | .ip => .all [.boundary, .texts ["46.225.0.9", "8.218.177.165"], .boundary]

def tags : List Tag := [.openId, .appId, .ip]

/-- The code that stands for an identifier. Identifiers are ASCII, so they can be encoded. -/
def code (tag : Tag) (m : PyStr) : PyStr :=
  py "<" ++ (tag.name ++ (py "_" ++ ((Sha1.hexdigest ((encodeUtf8 m).getD [])).take 8 ++ py ">")))

variable (wc : WordChars)

def replaceTag (tag : Tag) (s : PyStr) : PyStr := sub wc.isWord tag.pattern (code tag) s

/-- The loop of `_redact_pii`: the text, and what was replaced in it. -/
def redactFrom : List Tag → PyStr → PyStr × List (Tag × PyStr)
  | [], s => (s, [])
  | tag :: rest, s =>
      let out := redactFrom rest (replaceTag wc tag s)
      (out.1, (hits wc.isWord tag.pattern s).map (tag, ·) ++ out.2)

/-- `_redact_pii`; the count that it returns is the length of the list. -/
def redactPii (s : PyStr) : PyStr × List (Tag × PyStr) := redactFrom wc tags s

variable (scrub : PyStr → PyStr)

mutual
/-- `_walk` of `_scrub_record`. -/
def scrubValue : Json → Json
  | .str s => .str (redactPii wc (scrub s)).1
  | .arr xs => .arr (scrubItems xs)
  | .obj kvs => .obj (scrubPairs kvs)
  | v => v
def scrubItems : List Json → List Json
  | [] => []
  | x :: xs => scrubValue x :: scrubItems xs
def scrubPairs : List (PyStr × Json) → List (PyStr × Json)
  | [] => []
  | (k, x) :: kvs => (k, scrubValue x) :: scrubPairs kvs
end

def withoutTools (record : Dict PyStr Json) : Dict PyStr Json := record.filter fun kv => kv.1 != py "tools"

/-- `_scrub_record` with `redact_pii`; the counters of what was found are not kept. -/
def scrubRecord (record : Dict PyStr Json) : Dict PyStr Json :=
  let record' := scrubPairs wc scrub (withoutTools record)
  match getNone record (py "tools") with
  | .null => record'
  | tools => set record' (py "tools") tools

def Tag.marker : Tag → CodePoint
  | .openId => cp 'u'
  | .appId => cp 'l'
  | .ip => cp '.'

def Tag.starts : Tag → CodePoint → Bool
  | .openId => (· == cp 'o')
  | .appId => (· == cp 'c')
  | .ip => fun c => c == cp '4' || c == cp '8'

variable {wc} {l m w : PyStr}

lemma accepts_openId (h : Accepts wc.isWord (Tag.pattern .openId) l m w) :
    ∃ t, m = py "ou_" ++ t ∧ ∀ c ∈ t, isHexChar c = true := by
  obtain ⟨m₁, t, rfl, h₁, -, -, hall⟩ := h
  exact ⟨t, by rw [accepts_lit.mp h₁], hall⟩

lemma accepts_appId (h : Accepts wc.isWord (Tag.pattern .appId) l m w) :
    ∃ t, m = py "cli_" ++ t ∧ ∀ c ∈ t, isIdChar c = true := by
  obtain ⟨m₁, t, rfl, h₁, -, -, hall⟩ := h
  exact ⟨t, by rw [accepts_lit.mp h₁], hall⟩

lemma accepts_ip (h : Accepts wc.isWord (Tag.pattern .ip) l m w) :
    (m = py "46.225.0.9" ∨ m = py "8.218.177.165") ∧ atBoundary wc.isWord l (m ++ w) = true ∧
      atBoundary wc.isWord (m.reverse ++ l) w = true := by
  obtain ⟨-, -, rfl, ⟨rfl, hl⟩, m, -, rfl, hm, rfl, hr⟩ := h
  rw [List.append_nil, List.nil_append]
  refine ⟨?_, by simpa using hl, hr⟩
  rcases hm with hm | hm
  · exact .inl (accepts_lit.mp hm)
  · exact .inr (accepts_lit.mp hm)

lemma not_mem_lit_append {p : CodePoint → Bool} {lit t : PyStr} (ht : ∀ c ∈ t, p c = true) {c : CodePoint}
    (hc : p c = false) (hlit : c ∉ lit) : c ∉ lit ++ t := by
  intro hmem
  rcases List.mem_append.mp hmem with hmem | hmem
  · exact hlit hmem
  · simp [ht c hmem] at hc

lemma accepts_tag {tag : Tag} (h : Accepts wc.isWord tag.pattern l m w) :
    tag.marker ∈ m ∧ m.head?.any tag.starts = true ∧ cp '<' ∉ m ∧ cp '>' ∉ m := by
  cases tag with
  | openId =>
    obtain ⟨t, rfl, ht⟩ := accepts_openId h
    exact ⟨by simp [py, Tag.marker], rfl, not_mem_lit_append ht (by decide) (by decide),
      not_mem_lit_append ht (by decide) (by decide)⟩
  | appId =>
    obtain ⟨t, rfl, ht⟩ := accepts_appId h
    exact ⟨by simp [py, Tag.marker], rfl, not_mem_lit_append ht (by decide) (by decide),
      not_mem_lit_append ht (by decide) (by decide)⟩
  | ip =>
    rcases (accepts_ip h).1 with rfl | rfl <;> decide

lemma not_accepts_nil (tag : Tag) (left w : PyStr) : ¬Accepts wc.isWord tag.pattern left [] w := fun h => by
  simpa using (accepts_tag h).1

lemma not_mem_code {c : CodePoint} (hname : ∀ tag : Tag, c ∉ tag.name) (hlit : c ∉ py "<_>")
    (hhex : ∀ d < 16, hexDigit d ≠ c) (tag : Tag) (m : PyStr) : c ∉ code tag m := by
  intro h
  simp only [code, List.mem_append] at h
  rcases h with h | h | h | h | h
  · exact hlit (List.mem_of_mem_take (i := 1) h)
  · exact hname tag h
  · exact hlit (by simpa [py] using .inr (.inl (by simpa [py] using h)))
  · obtain ⟨d, hd, rfl⟩ := Sha1.mem_hexdigest (List.mem_of_mem_take h)
    exact hhex d hd rfl
  · exact hlit (by simpa [py] using .inr (.inr (by simpa [py] using h)))

lemma marker_not_mem_code (tag tag' : Tag) (m : PyStr) : tag.marker ∉ code tag' m := by
  have hname : ∀ tag tag' : Tag, tag.marker ∉ tag'.name := by
    intro tag tag'
    cases tag <;> cases tag' <;> decide
  refine not_mem_code (hname tag) ?_ ?_ tag' m
  · cases tag <;> decide
  · cases tag <;> decide

lemma head?_code (tag : Tag) (m : PyStr) : (code tag m).head? = some (cp '<') := rfl

lemma getLast?_code (tag : Tag) (m : PyStr) : (code tag m).getLast? = some (cp '>') := by
  rw [code]
  simp only [← List.append_assoc]
  exact List.getLast?_concat

abbrev Stop (wc : WordChars) (tag : Tag) (left s : PyStr) :
    Prop := ∃ m t, s = m ++ t ∧ Hit wc.isWord tag.pattern left m t

lemma bracketed_code (tag : Tag) :
    Bracketed wc.isWord tag.pattern (code tag) Eq (cp '<') (cp '>') (Stop wc tag) where
  refl _ := rfl
  shape _ m t hm := ⟨[], _, rfl, .nil, m, t, rfl, hm⟩
  last m := getLast?_code tag m

lemma isWord_digit {c : CodePoint} (h : 48 ≤ c.val) (h' : c.val ≤ 57) : wc.isWord c = true := by
  rw [wc.ascii c (by omega)]
  simp [h, h']

lemma isWord_ends_ip (h : m = py "46.225.0.9" ∨ m = py "8.218.177.165") (l w : PyStr) :
    (m ++ w).head?.any wc.isWord = true ∧ (m.reverse ++ l).head?.any wc.isWord = true := by
  rcases h with rfl | rfl
  · exact ⟨isWord_digit (c := cp '4') (by decide) (by decide), isWord_digit (c := cp '9') (by decide) (by decide)⟩
  · exact ⟨isWord_digit (c := cp '8') (by decide) (by decide), isWord_digit (c := cp '5') (by decide) (by decide)⟩

lemma starts_after_ip {left t : PyStr} (h : Hit wc.isWord (Tag.pattern .ip) left m t) :
    t.head?.any (Tag.starts .ip) = false := by
  obtain ⟨hm, -, hb⟩ := accepts_ip h.accepts
  rw [atBoundary, (isWord_ends_ip hm left t).2] at hb
  cases t with
  | nil => rfl
  | cons c t =>
    by_contra hc
    have hdigit : c = cp '4' ∨ c = cp '8' := by simpa [Tag.starts, or_iff_not_imp_left] using hc
    have hword : wc.isWord c = true := by
      rcases hdigit with rfl | rfl <;> exact isWord_digit (by decide) (by decide)
    simp [hword] at hb

lemma unmade_tag (tag tag' : Tag) (hlast : tag' = .ip → tag = .ip) :
    Unmade wc.isWord tag.pattern (code tag) Eq (cp '<') (cp '>') (Stop wc tag) tag'.pattern tag'.starts where
  classes p _ a b hab := by rw [hab]
  behind p _ a b hab := by rw [hab]
  unmarked l m w h := (accepts_tag h).2.2
  first l m w h := (accepts_tag h).2.1
  inside left m t _ l seg w hseg h := marker_not_mem_code tag' tag m (hseg.subset (accepts_tag h).1)
  after := by
    cases tag' with
    | openId => exact .inl (by simp [Tag.pattern, Regex.all, Regex.behind])
    | appId => exact .inl (by simp [Tag.pattern, Regex.all, Regex.behind])
    | ip =>
      obtain rfl := hlast rfl
      exact .inr fun left m t hm => starts_after_ip hm
  ahead := by
    cases tag' with
    | openId => exact .inl (by simp [Tag.pattern, Regex.all, Regex.looksAhead])
    | appId => exact .inl (by simp [Tag.pattern, Regex.all, Regex.looksAhead])
    | ip =>
      obtain rfl := hlast rfl
      refine .inr fun l m m' w l' w' hm hacc => ?_
      rintro ⟨m₂, t, rfl, hhit⟩
      obtain rfl : m = m' := List.forall₂_eq_eq_eq ▸ hm
      obtain ⟨hm₂, hb, -⟩ := accepts_ip hhit.accepts
      rw [atBoundary, (isWord_ends_ip (accepts_ip hacc).1 l w').2, (isWord_ends_ip hm₂ l t).1] at hb
      simp at hb

lemma noMatch_replaceTag {tag tag' : Tag} {s : PyStr} (hlast : tag' = .ip → tag = .ip)
    (h : tag' = tag ∨ NoMatch wc.isWord tag'.pattern s) : NoMatch wc.isWord tag'.pattern (replaceTag wc tag s) :=
  (unmade_tag tag tag' hlast).noMatch_sub (bracketed_code tag) (not_accepts_nil tag)
    (h.imp_left fun h => by rw [h])

theorem noMatch_redactPii (s : PyStr) (tag : Tag) : NoMatch wc.isWord tag.pattern (redactPii wc s).1 := by
  change NoMatch wc.isWord tag.pattern (replaceTag wc .ip (replaceTag wc .appId (replaceTag wc .openId s)))
  cases tag with
  | openId =>
    exact noMatch_replaceTag (by simp) (.inr (noMatch_replaceTag (by simp) (.inr (noMatch_replaceTag (by simp)
      (.inl rfl)))))
  | appId => exact noMatch_replaceTag (by simp) (.inr (noMatch_replaceTag (by simp) (.inl rfl)))
  | ip => exact noMatch_replaceTag (by simp) (.inl rfl)

lemma untouched_code (tag tag' : Tag) (m : PyStr) :
    Untouched wc.isWord tag'.pattern (cp '<') (cp '>') (code tag m) where
  head := head?_code tag m
  last := getLast?_code tag m
  unmarked _ _ _ h := (accepts_tag h).2.2
  inside _ _ _ hseg h := marker_not_mem_code tag' tag m (hseg.subset (accepts_tag h).1)

lemma replaced_tag (wc : WordChars) (tag : Tag) (s : PyStr) :
    Replaced wc.isWord tag.pattern (code tag) [] s (replaceTag wc tag s) (hits wc.isWord tag.pattern s) :=
  replaced_subFrom (not_accepts_nil tag) [] s

lemma code_infix_redactFrom {tag : Tag} {m : PyStr} (ts : List Tag) {s : PyStr} (h : code tag m <:+: s) :
    code tag m <:+: (redactFrom wc ts s).1 := by
  induction ts generalizing s with
  | nil => exact h
  | cons tag' ts ih =>
    obtain ⟨u, w, hs⟩ := h
    have hsplit : s = u ++ (code tag m ++ w) := by rw [← hs, List.append_assoc]
    exact ih ((untouched_code tag tag' m).infix_replaced (replaced_tag wc tag' s) hsplit)

theorem code_infix_redactPii {s : PyStr} {p : Tag × PyStr} (h : p ∈ (redactPii wc s).2) :
    code p.1 p.2 <:+: (redactPii wc s).1 := by
  rw [redactPii] at h ⊢
  generalize tags = ts at h ⊢
  induction ts generalizing s with
  | nil => simp [redactFrom] at h
  | cons tag ts ih =>
    rcases List.mem_append.mp h with h | h
    · obtain ⟨m, hm, rfl⟩ := List.mem_map.mp h
      exact code_infix_redactFrom ts ((replaced_tag wc tag s).infix_repl hm)
    · exact ih h

lemma redactPii_of_noMatch {s : PyStr} (h : ∀ tag : Tag, NoMatch wc.isWord tag.pattern s) :
    (redactPii wc s).1 = s := by
  have hstep : ∀ tag, replaceTag wc tag s = s := fun tag => sub_eq_self (h tag)
  change replaceTag wc .ip (replaceTag wc .appId (replaceTag wc .openId s)) = s
  rw [hstep, hstep, hstep]

mutual
def valueTexts : Json → List PyStr
  | .str s => [s]
  | .arr xs => valueTextsItems xs
  | .obj kvs => valueTextsPairs kvs
  | _ => []
def valueTextsItems : List Json → List PyStr
  | [] => []
  | x :: xs => valueTexts x ++ valueTextsItems xs
def valueTextsPairs : List (PyStr × Json) → List PyStr
  | [] => []
  | (_, x) :: kvs => valueTexts x ++ valueTextsPairs kvs
end

mutual
def keyTexts : Json → List PyStr
  | .arr xs => keyTextsItems xs
  | .obj kvs => keyTextsPairs kvs
  | _ => []
def keyTextsItems : List Json → List PyStr
  | [] => []
  | x :: xs => keyTexts x ++ keyTextsItems xs
def keyTextsPairs : List (PyStr × Json) → List PyStr
  | [] => []
  | (k, x) :: kvs => k :: (keyTexts x ++ keyTextsPairs kvs)
end

/-- The texts of a record outside its tools: the strings, and the keys. -/
def recordValues (record : Dict PyStr Json) : List PyStr := valueTextsPairs (withoutTools record)
def recordKeys (record : Dict PyStr Json) : List PyStr := keyTextsPairs (withoutTools record)

variable {scrub : PyStr → PyStr}

lemma texts_scrubPairs {kvs : List (PyStr × Json)}
    (ih : ∀ kv ∈ kvs, valueTexts (scrubValue wc scrub kv.2) =
      (valueTexts kv.2).map (fun s => (redactPii wc (scrub s)).1) ∧
        keyTexts (scrubValue wc scrub kv.2) = keyTexts kv.2) :
    valueTextsPairs (scrubPairs wc scrub kvs) = (valueTextsPairs kvs).map (fun s => (redactPii wc (scrub s)).1) ∧
      keyTextsPairs (scrubPairs wc scrub kvs) = keyTextsPairs kvs := by
  induction kvs with
  | nil => exact ⟨rfl, rfl⟩
  | cons kv kvs ihx =>
    obtain ⟨k, x⟩ := kv
    obtain ⟨hv, hk⟩ := ih (k, x) (by simp)
    obtain ⟨hvs, hks⟩ := ihx fun y hy => ih y (by simp [hy])
    simp only [scrubPairs, valueTextsPairs, keyTextsPairs, List.map_append, hv, hvs, hk, hks, and_self]

lemma texts_scrubValue (v : Json) :
    valueTexts (scrubValue wc scrub v) = (valueTexts v).map (fun s => (redactPii wc (scrub s)).1) ∧
      keyTexts (scrubValue wc scrub v) = keyTexts v := by
  induction v using Json.ind with
  | str s => exact ⟨rfl, rfl⟩
  | arr xs ih =>
    simp only [scrubValue, valueTexts, keyTexts]
    induction xs with
    | nil => exact ⟨rfl, rfl⟩
    | cons x xs ihx =>
      obtain ⟨hv, hk⟩ := ih x (by simp)
      obtain ⟨hvs, hks⟩ := ihx fun y hy => ih y (by simp [hy])
      simp only [scrubItems, valueTextsItems, keyTextsItems, List.map_append, hv, hvs, hk, hks, and_self]
  | obj kvs ih =>
    simp only [scrubValue, valueTexts, keyTexts]
    exact texts_scrubPairs ih
  | _ => exact ⟨rfl, rfl⟩

lemma scrubValue_id (v : Json) (h : ∀ s ∈ valueTexts v, ∀ tag : Tag, NoMatch wc.isWord tag.pattern s) :
    scrubValue wc id v = v := by
  induction v using Json.ind with
  | str s => rw [scrubValue, id, redactPii_of_noMatch (h s (by simp [valueTexts]))]
  | arr xs ih =>
    rw [scrubValue]
    congr 1
    rw [valueTexts] at h
    induction xs with
    | nil => rfl
    | cons x xs ihx =>
      rw [valueTextsItems, List.forall_mem_append] at h
      rw [scrubItems, ih x (by simp) h.1, ihx (fun y hy => ih y (by simp [hy])) h.2]
  | obj kvs ih =>
    rw [scrubValue]
    congr 1
    rw [valueTexts] at h
    induction kvs with
    | nil => rfl
    | cons kv kvs ihx =>
      obtain ⟨k, x⟩ := kv
      rw [valueTextsPairs, List.forall_mem_append] at h
      rw [scrubPairs, ih (k, x) (by simp) h.1, ihx (fun y hy => ih y (by simp [hy])) h.2]
  | _ => rfl

lemma keys_scrubPairs (kvs : List (PyStr × Json)) : keys (scrubPairs wc scrub kvs) = keys kvs := by
  induction kvs with
  | nil => rfl
  | cons kv kvs ih =>
    obtain ⟨k, x⟩ := kv
    simpa [scrubPairs, keys] using ih

lemma tools_not_mem_keys (record : Dict PyStr Json) :
    py "tools" ∉ keys (scrubPairs wc scrub (withoutTools record)) := by
  rw [keys_scrubPairs]
  intro h
  obtain ⟨kv, hkv, hk⟩ := List.mem_map.mp h
  simpa [hk] using (List.mem_filter.mp hkv).2

lemma withoutTools_of_not_mem {d : Dict PyStr Json} (h : py "tools" ∉ keys d) : withoutTools d = d := by
  refine List.filter_eq_self.mpr fun kv hkv => ?_
  simp only [bne_iff_ne]
  rintro hk
  exact h (hk ▸ List.mem_map_of_mem hkv)

lemma scrubRecord_eq (scrub : PyStr → PyStr) (record : Dict PyStr Json) :
    scrubRecord wc scrub record = scrubPairs wc scrub (withoutTools record) ++
      if getNone record (py "tools") = .null then [] else [(py "tools", getNone record (py "tools"))] := by
  rw [scrubRecord]
  split
  · next h => simp [h]
  · next h => rw [set_of_not_mem (tools_not_mem_keys record), if_neg h]

lemma withoutTools_scrubRecord (record : Dict PyStr Json) :
    withoutTools (scrubRecord wc scrub record) = scrubPairs wc scrub (withoutTools record) := by
  rw [scrubRecord_eq, withoutTools, List.filter_append]
  rw [show List.filter _ _ = _ from withoutTools_of_not_mem (tools_not_mem_keys record)]
  split_ifs <;> simp

lemma getNone_tools_scrubRecord (record : Dict PyStr Json) :
    getNone (scrubRecord wc scrub record) (py "tools") = getNone record (py "tools") := by
  rw [scrubRecord_eq, getNone, get?_append, get?_eq_none.mpr (tools_not_mem_keys record)]
  split_ifs with h
  · rw [h]
    rfl
  · simp [get?]

lemma recordValues_scrubRecord (record : Dict PyStr Json) :
    recordValues (scrubRecord wc scrub record) = (recordValues record).map (fun s =>
      (redactPii wc (scrub s)).1) := by
  rw [recordValues, withoutTools_scrubRecord]
  exact (texts_scrubPairs fun kv _ => texts_scrubValue kv.2).1

lemma recordKeys_scrubRecord (record : Dict PyStr Json) :
    recordKeys (scrubRecord wc scrub record) = recordKeys record := by
  rw [recordKeys, withoutTools_scrubRecord]
  exact (texts_scrubPairs fun kv _ => texts_scrubValue kv.2).2

lemma noMatch_recordValues {record : Dict PyStr Json} {s : PyStr}
    (hs : s ∈ recordValues (scrubRecord wc scrub record)) (tag : Tag) : NoMatch wc.isWord tag.pattern s := by
  obtain ⟨t, -, rfl⟩ := List.mem_map.mp (recordValues_scrubRecord record ▸ hs)
  exact noMatch_redactPii _ tag

lemma scrubRecord_scrubRecord (record : Dict PyStr Json) :
    scrubRecord wc id (scrubRecord wc scrub record) = scrubRecord wc scrub record := by
  have hsame : scrubValue wc id (.obj (withoutTools (scrubRecord wc scrub record))) =
      .obj (withoutTools (scrubRecord wc scrub record)) :=
        scrubValue_id (.obj (withoutTools (scrubRecord wc scrub record)))
    fun s hs tag => noMatch_recordValues hs tag
  rw [scrubValue, Json.obj.injEq] at hsame
  rw [scrubRecord_eq id, hsame, getNone_tools_scrubRecord, withoutTools_scrubRecord, ← scrubRecord_eq]

/-- Outside its tools a scrubbed record holds no identifier if and only if no key held one; the
same identifier has the same code in every string, and a second redaction changes nothing. -/
theorem scrubRecord_clean_iff (wc : WordChars) (scrub : PyStr → PyStr) (record : Dict PyStr Json) :
    ((∀ s ∈ recordValues (scrubRecord wc scrub record) ++ recordKeys (scrubRecord wc scrub record),
        ∀ tag : Tag, NoMatch wc.isWord tag.pattern s) ↔
      ∀ k ∈ recordKeys record, ∀ tag : Tag, NoMatch wc.isWord tag.pattern k) ∧
    (recordValues (scrubRecord wc scrub record) = (recordValues record).map (fun s => (redactPii wc (scrub s)).1) ∧
      ∀ s ∈ recordValues record, ∀ p ∈ (redactPii wc (scrub s)).2,
        code p.1 p.2 <:+: (redactPii wc (scrub s)).1) ∧
    scrubRecord wc id (scrubRecord wc scrub record) = scrubRecord wc scrub record := by
  refine ⟨?_, ⟨recordValues_scrubRecord record, fun s _ p hp => code_infix_redactPii hp⟩,
    scrubRecord_scrubRecord record⟩
  rw [recordKeys_scrubRecord, List.forall_mem_append]
  exact ⟨fun h => h.2, fun h => ⟨fun s hs tag => noMatch_recordValues hs tag, h⟩⟩

/-- ASCII word characters. -/
def asciiWords : WordChars := ⟨_, fun _ _ => rfl⟩

/-- A call whose tool arguments are keyed by an open id. -/
def keyedCall : Dict PyStr Json :=
  [(py "request", .obj []), (py "response", .obj [(py "final_response", .obj [(py "output", .arr [.obj
    [(py "type", .str (py "function_call")), (py "name", .str (py "notify")),
      (py "arguments", .str (py "\x7b\"ou_0123456789abcdef0123\": true\x7d"))]])])])]

/-- The adapter parses the arguments, and the open id is still in the scrubbed record. -/
theorem open_id_key_kept : ∃ record, CodexWireAdapter.adaptCall keyedCall none = .ok record ∧
      py "ou_0123456789abcdef0123" ∈ recordKeys (scrubRecord asciiWords id record) ∧
      ¬NoMatch asciiWords.isWord (Tag.pattern .openId) (py "ou_0123456789abcdef0123") := by
  obtain ⟨record, hrecord, hkey⟩ := PyValue.ok_of_toOption
    (show ∃ record ∈ (CodexWireAdapter.adaptCall keyedCall none).toOption,
      py "ou_0123456789abcdef0123" ∈ recordKeys (scrubRecord asciiWords id record) by decide +kernel)
  exact ⟨record, hrecord, hkey, by decide +kernel⟩

end AgentTrajectory.PiiRedaction
