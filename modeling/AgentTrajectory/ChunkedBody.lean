import AgentTrajectory.PyText

/-! The body of a request to the OTLP collector. A chunked body is read from the stream size by
size, and what is left of the stream is where the next request begins. -/
namespace AgentTrajectory.OtlpCollector
open PyText

def isBlank (b : UInt8) : Bool := b == 32 || (9 ≤ b && b ≤ 13)

/-- `bytes.strip`. -/
def stripBytes (s : Bytes) : Bytes := (s.dropWhile isBlank).rdropWhile isBlank

def digitValue (b : UInt8) : ℕ :=
  if 48 ≤ b ∧ b ≤ 57 then b.toNat - 48
  else if 97 ≤ b ∧ b ≤ 122 then b.toNat - 87
  else if 65 ≤ b ∧ b ≤ 90 then b.toNat - 55
  else 37

def dropSign : Bytes → Bool × Bytes
  | b :: s => if b = 45 then (true, s) else if b = 43 then (false, s) else (false, b :: s)
  | [] => (false, [])

/-- `0x` in front of a number, and an underscore behind it. -/
def dropRadix : Bytes → Bytes
  | a :: b :: s => if a = 48 ∧ (b = 120 ∨ b = 88) then (if s.head? = some 95 then s.tail else s) else a :: b :: s
  | s => s

def isDigitOf (base : ℕ) (b : UInt8) : Bool := digitValue b < base

/-- `int(s, base)`, for a base that is 16 or has no letter in front. Single underscores may stand
between digits. -/
def intOf (blank : UInt8 → Bool) (base : ℕ) (s : Bytes) : Except PyError ℤ :=
  let signed := dropSign (s.dropWhile blank)
  let digits := if base = 16 then dropRadix signed.2 else signed.2
  let number := digits.takeWhile fun b => isDigitOf base b || b == 95
  if (number.splitOn 95).all (· ≠ []) && (digits.drop number.length).all blank then
    let value : ℕ := Nat.ofDigits base ((number.filter (· != 95)).map digitValue).reverse
    .ok (if signed.1 then -value else value)
  else .error .valueError

/-- `rfile.readline()`: the line with its end, and the rest of the stream. -/
def readline (s : Bytes) : Bytes × Bytes :=
  let line := s.takeWhile (· != 10)
  (line ++ (s.drop line.length).take 1, (s.drop line.length).drop 1)

/-- `rfile.read(n)`, all of the stream for a negative number. -/
def read (n : ℤ) (s : Bytes) : Bytes × Bytes := if n < 0 then (s, []) else (s.take n.toNat, s.drop n.toNat)

def chunkSize (line : Bytes) : Except PyError ℤ := intOf isBlank 16 ((stripBytes line).takeWhile (· != 59))

lemma chunkSize_nil : chunkSize [] = .error .valueError := by decide

lemma length_readline (s : Bytes) : (readline s).1.length + (readline s).2.length = s.length := by
  have hle : (s.takeWhile (· != 10)).length ≤ s.length := (List.takeWhile_sublist _).length_le
  simp only [readline, List.length_append, List.length_take, List.length_drop]
  omega

lemma length_read_le (n : ℤ) (s : Bytes) : (read n s).2.length ≤ s.length := by
  rw [read]
  split_ifs
  · simp
  · simp

lemma length_round_lt {s : Bytes} {size : ℤ} (h : chunkSize (readline s).1 = .ok size) :
    (readline (read size (readline s).2).2).2.length < s.length := by
  have hne : (readline s).1 ≠ [] := by
    intro hnil
    rw [hnil, chunkSize_nil] at h
    simp at h
  have hpos := List.length_pos_iff.mpr hne
  have hline := length_readline s
  have hread := length_read_le size (readline s).2
  have hend := length_readline (read size (readline s).2).2
  omega

/-- The loop of `_read_body`, with the bytes left behind the chunks. A line is read in every round,
and an empty one at the end of the stream is no size. -/
def readChunks (s : Bytes) : Except PyError (Bytes × Bytes) :=
  match hsize : chunkSize (readline s).1 with
  | .error e => .error e
  | .ok size =>
      if size = 0 then .ok ([], (readline (readline s).2).2)
      else
        have := length_round_lt hsize
        (readChunks (readline (read size (readline s).2).2).2).map fun r =>
          ((read size (readline s).2).1 ++ r.1, r.2)
termination_by s.length

/-- The headers that are read. Their characters are those of Latin-1. -/
structure Headers where
  transferEncoding : Option PyStr
  contentLength : Option Bytes

def isBlankText (b : UInt8) : Bool := isBlank b || (28 ≤ b && b ≤ 31) || b == 0x85 || b == 0xA0

def Headers.chunked (h : Headers) : Bool := lowerAscii (h.transferEncoding.getD []) == py "chunked"

def readBody (h : Headers) (s : Bytes) : Except PyError (Bytes × Bytes) :=
  if h.chunked then readChunks s
  else ((h.contentLength.map (intOf isBlankText 10)).getD (.ok 0)).map fun n => read n s

/-- The line that announces a chunk of the length: the length in hexadecimal digits, and chunk
extensions behind a semicolon. -/
structure SizeLine (length : ℕ) where
  size : Bytes
  blanks : Bytes
  extensions : Option Bytes
  size_ne : size ≠ []
  size_hex : ∀ b ∈ size, isDigitOf 16 b = true
  size_value : Nat.ofDigits 16 (size.map digitValue).reverse = length
  blanks_blank : ∀ b ∈ blanks, isBlank b = true ∧ b ≠ 10
  extensions_line : ∀ e ∈ extensions, (10 : UInt8) ∉ e

def SizeLine.text {length : ℕ} (l : SizeLine length) : Bytes :=
  l.size ++ (l.blanks ++ ((l.extensions.map fun e => 59 :: e).getD [] ++ [13, 10]))

/-- A chunk with its line; no chunk but the last is empty. -/
structure Chunk where
  data : Bytes
  line : SizeLine data.length
  data_ne : data ≠ []

def Chunk.text (c : Chunk) : Bytes := c.line.text ++ (c.data ++ [13, 10])

/-- The chunks, the last chunk and the empty trailer. -/
def encode (chunks : List Chunk) (last : SizeLine 0) :
    Bytes := chunks.flatMap Chunk.text ++ (last.text ++ [13, 10])

lemma hex_byte {b : UInt8} (h : isDigitOf 16 b = true) :
    isBlank b = false ∧ b ≠ 10 ∧ b ≠ 43 ∧ b ≠ 45 ∧ b ≠ 59 ∧ b ≠ 95 ∧ b ≠ 120 ∧ b ≠ 88 := by
  revert b
  decide +kernel

lemma blank_byte {b : UInt8} (h : isBlank b = true) :
    isDigitOf 16 b = false ∧ b ≠ 59 ∧ b ≠ 95 ∧ b ≠ 120 ∧ b ≠ 88 := by
  revert b
  decide +kernel

lemma readline_append {s : Bytes} (h : (10 : UInt8) ∉ s) (t : Bytes) :
    readline (s ++ 10 :: t) = (s ++ [10], t) := by
  have htake : (s ++ 10 :: t).takeWhile (· != 10) = s := by
    rw [List.takeWhile_append_of_pos fun b hb => by simpa using fun he : b = 10 => h (he ▸ hb)]
    simp
  simp only [readline, htake, List.drop_left]
  simp

lemma readline_crlf (t : Bytes) : readline ([13, 10] ++ t) = ([13, 10], t) := @readline_append [13] (by decide) t

lemma readline_text {n : ℕ} (l : SizeLine n) (t : Bytes) : readline (l.text ++ t) = (l.text, t) := by
  have hext : (10 : UInt8) ∉ (l.extensions.map fun e => 59 :: e).getD [] := by
    cases he : l.extensions with
    | none => simp
    | some e => simpa using l.extensions_line e he
  have hfree : (10 : UInt8) ∉ l.size ++ (l.blanks ++ ((l.extensions.map fun e => 59 :: e).getD [] ++ [13])) := by
    simp only [List.mem_append, not_or]
    exact ⟨fun h => (hex_byte (l.size_hex _ h)).2.1 rfl, fun h => (l.blanks_blank _ h).2 rfl, hext, by decide⟩
  have hline := readline_append hfree t
  simpa [SizeLine.text] using hline

lemma dropWhile_stops {c : UInt8} (hc : isBlank c = false) (s t : Bytes) :
    ∃ s', (s ++ c :: t).dropWhile isBlank = s' ++ c :: t ∧ ((∀ b ∈ s, isBlank b = true) → s' = []) := by
  induction s with
  | nil => exact ⟨[], List.dropWhile_cons_of_neg (by simp [hc]), fun _ => rfl⟩
  | cons b s ih =>
    by_cases hb : isBlank b = true
    · obtain ⟨s', hs, hall⟩ := ih
      exact ⟨s', by rw [List.cons_append, List.dropWhile_cons_of_pos hb, hs],
        fun h => hall fun b' hb' => h b' (List.mem_cons_of_mem _ hb')⟩
    · exact ⟨b :: s, by rw [List.cons_append, List.dropWhile_cons_of_neg hb], fun h =>
        absurd (h b List.mem_cons_self) hb⟩

lemma rstrip_stops {c : UInt8} (hc : isBlank c = false) (s t : Bytes) :
    ∃ t', (s ++ c :: t).rdropWhile isBlank = s ++ c :: t' ∧ ((∀ b ∈ t, isBlank b = true) → t' = []) := by
  obtain ⟨t', ht, hall⟩ := dropWhile_stops hc t.reverse s.reverse
  refine ⟨t'.reverse, ?_, fun h => by rw [hall fun b hb => h b (List.mem_reverse.mp hb), List.reverse_nil]⟩
  have hreverse : (s ++ c :: t).reverse = t.reverse ++ c :: s.reverse := by simp
  rw [List.rdropWhile, hreverse, ht]
  simp

lemma stripped_text {n : ℕ} (l : SizeLine n) :
    ∃ bs, (∀ b ∈ bs, isBlank b = true) ∧ (stripBytes l.text).takeWhile (· != 59) = l.size ++ bs := by
  have hfront : l.text.dropWhile isBlank = l.text := by
    obtain ⟨c, size, hsize⟩ := List.exists_cons_of_ne_nil l.size_ne
    have hc := hex_byte (l.size_hex c (hsize ▸ List.mem_cons_self))
    rw [SizeLine.text, hsize]
    exact List.dropWhile_cons_of_neg (by simp [hc.1])
  have hsize : ∀ b ∈ l.size, (b != 59) = true := fun b hb => by simpa using (hex_byte (l.size_hex b hb)).2.2.2.2.1
  have hblanks : ∀ b ∈ l.blanks, (b != 59) = true := fun b hb => by
    simpa using (blank_byte (l.blanks_blank b hb).1).2.1
  rw [stripBytes, hfront, SizeLine.text]
  cases l.extensions with
  | none =>
    -- the last digit of the size ends the stripped line
    obtain ⟨init, c, hsplit⟩ := List.eq_nil_or_concat' l.size |>.resolve_left l.size_ne
    have hc := hex_byte (l.size_hex c (by simp [hsplit]))
    obtain ⟨t', ht, hall⟩ := rstrip_stops hc.1 init (l.blanks ++ [13, 10])
    have hend : ∀ b ∈ l.blanks ++ [13, 10], isBlank b = true := by
      intro b hb
      rcases List.mem_append.mp hb with hb | hb
      · exact (l.blanks_blank b hb).1
      · simp only [List.mem_cons, List.not_mem_nil, or_false] at hb
        rcases hb with rfl | rfl <;> decide
    refine ⟨[], by simp, ?_⟩
    have hline : l.size ++ (l.blanks ++ ([] ++ [13, 10])) = init ++ c :: (l.blanks ++ [13, 10]) := by simp [hsplit]
    simp only [Option.map_none, Option.getD_none]
    rw [hline, ht, hall hend, ← hsplit, List.append_nil, List.takeWhile_eq_self_iff]
    exact hsize
  | some e =>
    obtain ⟨t', ht, -⟩ := rstrip_stops (c := 59) (by decide) (l.size ++ l.blanks) (e ++ [13, 10])
    refine ⟨l.blanks, fun b hb => (l.blanks_blank b hb).1, ?_⟩
    have hline : l.size ++ (l.blanks ++ (59 :: e ++ [13, 10])) = (l.size ++ l.blanks) ++ 59 ::
      (e ++ [13, 10]) := by simp
    simp only [Option.map_some, Option.getD_some]
    rw [hline, ht, List.takeWhile_append_of_pos fun b hb => (List.mem_append.mp hb).elim (hsize b) (hblanks b)]
    simp

lemma intOf_hex {size bs : Bytes} (hne : size ≠ []) (hhex : ∀ b ∈ size, isDigitOf 16 b = true)
    (hbs : ∀ b ∈ bs, isBlank b = true) :
    intOf isBlank 16 (size ++ bs) = .ok (Nat.ofDigits 16 (size.map digitValue).reverse : ℕ) := by
  have hblank : (size ++ bs).dropWhile isBlank = size ++ bs := by
    obtain ⟨c, size, rfl⟩ := List.exists_cons_of_ne_nil hne
    exact List.dropWhile_cons_of_neg (by simp [(hex_byte (hhex c List.mem_cons_self)).1])
  have hsign : dropSign (size ++ bs) = (false, size ++ bs) := by
    obtain ⟨c, size, rfl⟩ := List.exists_cons_of_ne_nil hne
    have hc := hex_byte (hhex c List.mem_cons_self)
    simp only [List.cons_append, dropSign, if_neg hc.2.2.2.1, if_neg hc.2.2.1]
  have hradix : dropRadix (size ++ bs) = size ++ bs := by
    have hletter : ∀ b ∈ size ++ bs, b ≠ 120 ∧ b ≠ 88 := by
      intro b hb
      rcases List.mem_append.mp hb with hb | hb
      · exact (hex_byte (hhex b hb)).2.2.2.2.2.2
      · exact (blank_byte (hbs b hb)).2.2.2
    generalize size ++ bs = s at hletter
    rcases s with - | ⟨a, - | ⟨b, s⟩⟩
    · rfl
    · rfl
    · obtain ⟨hx, hX⟩ := hletter b (by simp)
      rw [dropRadix, if_neg (by simp [hx, hX])]
  have hnumber : (size ++ bs).takeWhile (fun b => isDigitOf 16 b || b == 95) = size := by
    rw [List.takeWhile_append_of_pos fun b hb => by simp [hhex b hb]]
    have hstop : bs.takeWhile (fun b => isDigitOf 16 b || b == 95) = [] := by
      rcases bs with - | ⟨b, bs⟩
      · rfl
      · have hb := blank_byte (hbs b List.mem_cons_self)
        exact List.takeWhile_cons_of_neg (by simp [hb.1, hb.2.2.1])
    rw [hstop, List.append_nil]
  have hunderscore : ∀ b ∈ size, b ≠ 95 := fun b hb => (hex_byte (hhex b hb)).2.2.2.2.2.1
  have hsplit : size.splitOn 95 = [size] := by
    have hone := @List.splitOn_intercalate _ [size] _ _ (95 : UInt8)
      (by simpa using fun h => hunderscore 95 h rfl) (by simp)
    simpa [List.intercalate] using hone
  have hfilter : size.filter (· != 95) = size := List.filter_eq_self.mpr fun b hb => by
    simpa using hunderscore b hb
  rw [intOf]
  simp only [hblank, hsign, if_true, hradix, hnumber, hsplit, List.drop_left, hfilter]
  rw [if_pos]
  · rfl
  · simpa [hne] using hbs

lemma chunkSize_text {n : ℕ} (l : SizeLine n) : chunkSize l.text = .ok n := by
  obtain ⟨bs, hbs, hline⟩ := stripped_text l
  rw [chunkSize, hline, intOf_hex l.size_ne l.size_hex hbs, l.size_value]

lemma readChunks_last (last : SizeLine 0) (rest : Bytes) :
    readChunks (last.text ++ [13, 10] ++ rest) = .ok ([], rest) := by
  have hline : readline (last.text ++ [13, 10] ++ rest) = (last.text, [13, 10] ++ rest) := by
    rw [List.append_assoc, readline_text]
  have hsize : chunkSize (readline (last.text ++ [13, 10] ++ rest)).1 = .ok 0 := by
    rw [hline, chunkSize_text]
    rfl
  rw [readChunks]
  split
  · rename_i e he
    rw [hsize] at he
    simp at he
  · rename_i size he
    obtain rfl := Except.ok.inj (hsize.symm.trans he)
    rw [if_pos rfl, hline, readline_crlf]

lemma readChunks_chunk (c : Chunk) (s : Bytes) :
    readChunks (c.text ++ s) = (readChunks s).map fun r => (c.data ++ r.1, r.2) := by
  have hline : readline (c.text ++ s) = (c.line.text, c.data ++ ([13, 10] ++ s)) := by
    rw [Chunk.text, List.append_assoc, List.append_assoc, readline_text]
  have hsize : chunkSize (readline (c.text ++ s)).1 = .ok c.data.length := by
    rw [hline, chunkSize_text]
  have hread : read c.data.length (c.data ++ ([13, 10] ++ s)) = (c.data, [13, 10] ++ s) := by
    rw [read, if_neg (by omega), Int.toNat_natCast, List.take_left, List.drop_left]
  have hpos := List.length_pos_iff.mpr c.data_ne
  rw [readChunks]
  split
  · rename_i e he
    rw [hsize] at he
    simp at he
  · rename_i size he
    obtain rfl := Except.ok.inj (hsize.symm.trans he)
    rw [if_neg (by omega), hline, hread, readline_crlf]

lemma readChunks_encode (chunks : List Chunk) (last : SizeLine 0) (rest : Bytes) :
    readChunks (encode chunks last ++ rest) = .ok (chunks.flatMap Chunk.data, rest) := by
  induction chunks with
  | nil => simpa [encode] using readChunks_last last rest
  | cons c chunks ih =>
    have hcons : encode (c :: chunks) last ++ rest = c.text ++ (encode chunks last ++ rest) := by
      simp [encode]
    rw [hcons, readChunks_chunk, ih]
    rfl

/-- The chunked encoding of a body is read back as the body, and what follows it is left. -/
theorem readBody_encode {h : Headers} (hc : h.chunked = true) (chunks : List Chunk)
    (last : SizeLine 0) (rest : Bytes) :
    readBody h (encode chunks last ++ rest) = .ok (chunks.flatMap Chunk.data, rest) := by
  rw [readBody, if_pos hc, readChunks_encode]

/-- The line `0A;k`. -/
def tenLine : SizeLine 10 :=
  ⟨[48, 65], [], some [107], by simp, by decide +kernel, by decide +kernel, by simp, by simp⟩

def unitLine : SizeLine 1 := ⟨[49], [], none, by simp, by decide +kernel, by decide +kernel, by simp, by simp⟩

def zeroLine : SizeLine 0 := ⟨[48], [], none, by simp, by decide +kernel, by decide +kernel, by simp, by simp⟩

theorem readBody_encode_two : readBody ⟨some (py "Chunked"), none⟩
      (encode [⟨[48, 13, 10, 49, 50, 51, 52, 53, 54, 55], tenLine, by decide⟩,
        ⟨[10], unitLine, by decide⟩] zeroLine ++ [80, 79]) =
      .ok ([48, 13, 10, 49, 50, 51, 52, 53, 54, 55, 10], [80, 79]) :=
  readBody_encode (by decide +kernel) _ _ _

end AgentTrajectory.OtlpCollector
