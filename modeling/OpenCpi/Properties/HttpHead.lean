import OpenCpi.Http.Server

/-!
# The client reads the head of an answer

`readline` reads a line that is short enough back. `strtoul` reads the numbers back that the server
writes. So the client finds in the header lines of the server what the server put there.
-/

namespace OpenCpi.Http

open Value (Text)
open Sim (ascii decimal isSpace digitOf digits)

/-! ## Lines -/

/-- A line that `readline` returns as it is. -/
structure Line (line : Text) : Prop where
  noFeed : 10 ∉ line
  short : line.length < maxLengthOfHeaderLine
  trimmed : line.rdropWhile isBlank = line

theorem readlineLoop_line {maxSize : Nat} {rest : Text} : ∀ {line res : Text},
    10 ∉ line → res.length + line.length ≤ maxSize →
    readlineLoop maxSize (line ++ 10 :: rest) res = (res ++ line, ⟨rest, true⟩)
  | [], res, _, _ => by
    rw [List.nil_append, readlineLoop, if_pos rfl, List.append_nil]
  | c :: line, res, hline, hlen => by
    rw [List.length_cons] at hlen
    rw [List.cons_append, readlineLoop, if_neg (List.ne_of_not_mem_cons hline).symm, if_neg (by omega),
      readlineLoop_line (List.not_mem_of_not_mem_cons hline)
        (by rw [List.length_append, List.length_singleton]; omega),
      List.append_assoc, List.singleton_append]

/-- **A line is read back.** -/
theorem readline_line {line : Text} (rest : Text) (h : Line line) :
    readline ⟨line ++ (crlf ++ rest), true⟩ maxLengthOfHeaderLine = (line, ⟨rest, true⟩) := by
  have hbytes : line ++ (crlf ++ rest) = (line ++ [13]) ++ 10 :: rest := by
    rw [List.append_assoc]
    rfl
  have hfeed : 10 ∉ line ++ [13] := by
    intro hc
    rcases List.mem_append.mp hc with hc | hc
    · exact h.noFeed hc
    · exact absurd (List.mem_singleton.mp hc) (by decide)
  have hlen : ([] : Text).length + (line ++ [13]).length ≤ maxLengthOfHeaderLine := by
    have := h.short
    simp only [List.length_nil, List.length_append, List.length_singleton]
    omega
  unfold readline
  rw [if_pos rfl, hbytes, readlineLoop_line hfeed hlen, List.nil_append]
  dsimp only
  rw [List.rdropWhile_concat_pos _ _ _ (by decide), h.trimmed]

theorem line_nil : Line [] :=
  ⟨List.not_mem_nil, by decide, rfl⟩

/-- A line whose last character is not blank. -/
theorem line_concat {line : Text} {c : UInt8} (hline : 10 ∉ line) (hc : c ≠ 10)
    (hb : isBlank c = false) (hlen : line.length + 1 < maxLengthOfHeaderLine) :
    Line (line ++ [c]) := by
  refine ⟨?_, ?_, List.rdropWhile_concat_neg _ _ _ (by rw [hb]; decide)⟩
  · intro hx
    rcases List.mem_append.mp hx with hx | hx
    · exact hline hx
    · exact hc (List.mem_singleton.mp hx).symm
  · rw [List.length_append, List.length_singleton]
    exact hlen

/-! ## Numbers -/

/-- The digits of a text that has only digits. -/
theorem digits_append {base : Nat} (rest : Text) : ∀ {t : Text} {v n : Nat},
    (∀ c ∈ t, (digitOf base c).isSome) →
    digits base v n (t ++ rest) = digits base (digits base v n t).1 (n + t.length) rest
  | [], v, n, _ => by
    rw [List.nil_append, digits, List.length_nil, Nat.add_zero]
  | c :: t, v, n, h => by
    obtain ⟨k, hk⟩ := Option.isSome_iff_exists.mp (h c List.mem_cons_self)
    rw [List.cons_append, digits, digits, hk]
    dsimp only
    rw [digits_append rest (fun x hx => h x (List.mem_cons_of_mem _ hx)), List.length_cons,
      Nat.add_right_comm, Nat.add_assoc n]

/-- The byte of a digit. -/
def digitByte (k : Nat) : UInt8 := UInt8.ofNat (Nat.digitChar k).toNat

theorem digitOf_digitByte {base : Nat} (hb : base ≤ 16) {k : Nat} (hk : k < base) :
    digitOf base (digitByte k) = some k := by
  have key : ∀ b < 17, ∀ k < b, digitOf b (digitByte k) = some k := by decide
  exact key base (by omega) k hk

/-- A number in a base. -/
def numeral (base n : Nat) : Text := (Nat.toDigits base n).map fun c => UInt8.ofNat c.toNat

theorem numeral_eq {base : Nat} (hb : 1 < base) (n : Nat) :
    numeral base n = if n < base then [digitByte n]
      else numeral base (n / base) ++ [digitByte (n % base)] := by
  unfold numeral
  rw [Nat.toDigits_eq_if hb]
  by_cases hn : n < base
  · rw [if_pos hn, if_pos hn]
    rfl
  · rw [if_neg hn, if_neg hn, List.map_append]
    rfl

theorem numeral_digit {base : Nat} (hb : 1 < base) (hb' : base ≤ 16) (n : Nat) :
    ∀ c ∈ numeral base n, (digitOf base c).isSome := by
  induction n using Nat.strongRecOn with
  | ind n ih =>
    intro c hc
    rw [numeral_eq hb] at hc
    by_cases hn : n < base
    · rw [if_pos hn, List.mem_singleton] at hc
      rw [hc, digitOf_digitByte hb' hn, Option.isSome_some]
    · rw [if_neg hn, List.mem_append, List.mem_singleton] at hc
      rcases hc with hc | hc
      · exact ih _ (Nat.div_lt_self (by omega) hb) c hc
      · rw [hc, digitOf_digitByte hb' (Nat.mod_lt n (by omega)), Option.isSome_some]

/-- **The digits of a number give the number.** -/
theorem digits_numeral {base : Nat} (hb : 1 < base) (hb' : base ≤ 16) (n : Nat) :
    (digits base 0 0 (numeral base n)).1 = n := by
  induction n using Nat.strongRecOn with
  | ind n ih =>
    rw [numeral_eq hb]
    by_cases hn : n < base
    · rw [if_pos hn, digits, digitOf_digitByte hb' hn]
      dsimp only
      rw [digits, Nat.zero_mul, Nat.zero_add]
    · have hlt : n / base < n := Nat.div_lt_self (by omega) hb
      rw [if_neg hn, digits_append _ (numeral_digit hb hb' _), ih _ hlt, digits,
        digitOf_digitByte hb' (Nat.mod_lt n (by omega))]
      dsimp only
      rw [digits, Nat.div_add_mod']

theorem numeral_ne_nil (base n : Nat) : numeral base n ≠ [] := by
  intro h
  exact Nat.toDigits_ne_nil (List.map_eq_nil_iff.mp h)

theorem numeral_length {base n k : Nat} (hb : 1 < base) (hk : 0 < k) (hn : n < base ^ k) :
    (numeral base n).length ≤ k := by
  unfold numeral
  rw [List.length_map]
  exact (Nat.length_toDigits_le_iff hb hk).mpr hn

/-- What a digit is not. -/
theorem digit_plain {base : Nat} (hb : base ≤ 16) {c : UInt8} (h : (digitOf base c).isSome) :
    c ≠ 10 ∧ c ≠ 45 ∧ c ≠ 43 ∧ c ≠ 120 ∧ c ≠ 88 ∧ isSpace c = false ∧ isBlank c = false := by
  have hd : (48 ≤ c ∧ c ≤ 57) ∨ (97 ≤ c ∧ c ≤ 102) ∨ (65 ≤ c ∧ c ≤ 70) := by
    by_contra hn
    unfold digitOf at h
    rw [if_neg (fun h => hn (.inl h)), if_neg (fun h => hn (.inr (.inl h))),
      if_neg (fun h => hn (.inr (.inr h)))] at h
    dsimp only at h
    rw [if_neg (by omega)] at h
    cases h
  clear h
  unfold isSpace isBlank
  simp only [UInt8.le_iff_toNat_le, ne_eq, ← UInt8.toNat_inj] at hd ⊢
  simp only [UInt8.reduceToNat] at hd ⊢
  simp only [Bool.or_eq_false_iff, Bool.and_eq_false_iff, decide_eq_false_iff_not]
  omega

theorem digits_stop {base v n : Nat} (hb : base ≤ 16) {u : Text} (hu : u = [] ∨ u.head? = some 59) :
    digits base v n u = (v, n, u) := by
  rcases hu with rfl | hu
  · rfl
  · cases u with
    | nil => rfl
    | cons c u =>
      have hnone : digitOf base 59 = none := if_neg (Nat.not_lt.mpr hb)
      rw [List.head?_cons, Option.some_inj] at hu
      rw [digits, hu, hnone]

/-- **`strtoul` of plain digits**, also before a semicolon. -/
theorem strtoul_digits {base : Nat} (hb : base ≤ 16) {t u : Text} (ht : t ≠ [])
    (h : ∀ c ∈ t, (digitOf base c).isSome) (hu : u = [] ∨ u.head? = some 59)
    (hv : (digits base 0 0 t).1 < 2 ^ 64) : strtoul base (t ++ u) = ((digits base 0 0 t).1, u) := by
  cases t with
  | nil => exact absurd rfl ht
  | cons c v =>
    obtain ⟨-, hm, hp, -, -, hs, -⟩ := digit_plain hb (h c List.mem_cons_self)
    have hdrop : (c :: v ++ u).dropWhile isSpace = c :: v ++ u := by
      rw [List.cons_append, List.dropWhile_cons, hs]
      rfl
    have hnox : ∀ x, (v ++ u).head? = some x → ¬(x = 120 ∨ x = 88) := by
      intro x hx
      cases v with
      | nil =>
        rcases hu with rfl | hu
        · cases hx
        · rw [List.nil_append, hu] at hx
          cases hx
          decide
      | cons y v =>
        rw [List.cons_append, List.head?_cons, Option.some_inj] at hx
        have := digit_plain hb (h y (List.mem_cons_of_mem _ List.mem_cons_self))
        exact hx ▸ fun hxx => hxx.elim this.2.2.2.1 this.2.2.2.2.1
    have hprefix : skipPrefix (c :: v ++ u) = c :: v ++ u := by
      unfold skipPrefix
      split
      case _ x d rest heq =>
        rw [List.cons_append, List.cons.injEq] at heq
        have hx := hnox x (by rw [heq.2]; rfl)
        rw [if_neg (fun hand => hx hand.1), List.cons_append, heq.1, heq.2]
      case _ => rfl
    have hall : digits base 0 0 (c :: v ++ u) = ((digits base 0 0 (c :: v)).1, (c :: v).length, u) := by
      rw [digits_append u h, digits_stop hb hu, Nat.zero_add]
    have hsign : ¬((c :: v ++ u).head? = some 45 ∨ (c :: v ++ u).head? = some 43) := by
      rw [List.cons_append, List.head?_cons, Option.some_inj, Option.some_inj]
      exact fun hx => hx.elim hm hp
    unfold strtoul
    dsimp only
    rw [hdrop, if_neg hsign, hprefix, ite_self, hall]
    dsimp only
    rw [if_neg (by rw [List.length_cons]; omega), if_neg (Nat.not_le.mpr hv),
      if_neg (fun hx => hsign (.inl hx))]

theorem strtoul_plain {base : Nat} (hb : base ≤ 16) {t : Text} (ht : t ≠ [])
    (h : ∀ c ∈ t, (digitOf base c).isSome) (hv : (digits base 0 0 t).1 < 2 ^ 64) :
    strtoul base t = ((digits base 0 0 t).1, []) := by
  have hdigits := strtoul_digits hb ht h (Or.inl rfl) hv
  rwa [List.append_nil] at hdigits

theorem strtoul_numeral {base : Nat} (hb : 1 < base) (hb' : base ≤ 16) {n : Nat} (hn : n < 2 ^ 64) :
    strtoul base (numeral base n) = (n, []) := by
  have hd := digits_numeral hb hb' n
  rw [strtoul_plain hb' (numeral_ne_nil base n) (numeral_digit hb hb' n) (by rw [hd]; exact hn), hd]

/-! ## Header lines -/

/-- A text without a line feed, of at most so many characters. -/
def Short (n : Nat) (t : Text) : Prop := 10 ∉ t ∧ t.length ≤ n

instance (n : Nat) (t : Text) : Decidable (Short n t) := inferInstanceAs (Decidable (_ ∧ _))

theorem Short.append {m n : Nat} {t u : Text} (ht : Short m t) (hu : Short n u) :
    Short (m + n) (t ++ u) := by
  refine ⟨?_, ?_⟩
  · intro hc
    rcases List.mem_append.mp hc with hc | hc
    · exact ht.1 hc
    · exact hu.1 hc
  · rw [List.length_append]
    exact Nat.add_le_add ht.2 hu.2

theorem short_decimal {n k : Nat} (hk : 0 < k) (hn : n < 10 ^ k) : Short k (decimal n) := by
  refine ⟨fun hc => ?_, numeral_length (by decide) hk hn⟩
  exact (digit_plain (by decide) (numeral_digit (by decide) (by decide) n 10 hc)).1 rfl

theorem short_integerToString {i : Int} (hi : i.natAbs ≤ 2 ^ 32) :
    Short 11 (integerToString i) := by
  cases i with
  | ofNat n =>
    have hn : n ≤ 2 ^ 32 := hi
    exact short_decimal (by decide) (by omega)
  | negSucc n =>
    have hn : n + 1 ≤ 2 ^ 32 := hi
    exact Short.append (m := 1) (n := 10) (by decide) (short_decimal (by decide) (by omega))

theorem short_twoDigits {n : Nat} (hn : n < 100) : Short 3 (twoDigits n) := by
  refine Short.append (m := 1) (n := 2) ?_ (short_decimal (by decide) hn)
  by_cases h : n < 10
  · rw [if_pos h]
    decide
  · rw [if_neg h]
    decide

theorem short_makeHttpDate (tm : Tm) :
    ∃ t, makeHttpDate tm = t ++ [84] ∧ Short 39 t := by
  have hday : ∀ k : Fin 7, Short 3 (shortWkdayNames.getD k []) := by decide
  have hmonth : ∀ k : Fin 12, Short 3 (shortMonthNames.getD k []) := by decide
  have h₁ : Short 2 (ascii ", ") := by decide
  have h₂ : Short 1 (ascii " ") := by decide
  have h₃ : Short 1 (ascii ":") := by decide
  have h₄ : Short 3 (ascii " GM") := by decide
  refine ⟨_, ?_, (((((((((((hday tm.wday).append h₁).append
    (short_twoDigits (n := tm.mday) (by omega))).append h₂).append (hmonth tm.mon)).append h₂).append
    (short_integerToString tm.year_fits)).append h₂).append
    (short_twoDigits (n := tm.hour) (by omega))).append h₃).append
    (short_twoDigits (n := tm.min) (by omega))).append h₃ |>.append
    (short_twoDigits (n := tm.sec) (by omega)) |>.append h₄⟩
  rw [List.append_assoc]
  rfl

theorem makeHttpDate_not_space (tm : Tm) :
    (makeHttpDate tm).dropWhile isSpace = makeHttpDate tm := by
  have hday : ∀ k : Fin 7, ∃ c u, shortWkdayNames.getD k [] = c :: u ∧ isSpace c = false := by
    intro k
    have : ∀ k : Fin 7, (shortWkdayNames.getD k []).head?.map isSpace = some false := by decide
    have hk := this k
    cases h : shortWkdayNames.getD k [] with
    | nil =>
      rw [h] at hk
      cases hk
    | cons c u =>
      rw [h] at hk
      exact ⟨c, u, rfl, Option.some_inj.mp hk⟩
  obtain ⟨c, u, hu, hc⟩ := hday tm.wday
  unfold makeHttpDate
  rw [hu]
  simp only [List.cons_append, List.append_assoc]
  rw [List.dropWhile_cons, hc]
  rfl

/-- The line of a header field. -/
def fieldLine (f : Text × Text) : Text := f.1 ++ ascii ": " ++ f.2

/-- A field that is read back. -/
structure Field (f : Text × Text) : Prop where
  line : Line (fieldLine f)
  parsed : parseHeader (fieldLine f) = some f

theorem parseHeader_fieldLine {name value : Text} (hcolon : 58 ∉ name)
    (htoken : isToken name = true) (hvalue : value.dropWhile isSpace = value) :
    parseHeader (fieldLine (name, value)) = some (name, value) := by
  have hname : (fieldLine (name, value)).takeWhile (· ≠ 58) = name := by
    unfold fieldLine
    rw [List.append_assoc, List.takeWhile_append_of_pos (fun c hc => by
      rw [decide_eq_true_iff]
      exact fun h => hcolon (h ▸ hc))]
    exact List.append_nil name
  have hdrop : (fieldLine (name, value)).drop (name.length + 1) = 32 :: value := by
    unfold fieldLine
    rw [List.append_assoc, List.drop_append, List.drop_eq_nil_of_le (Nat.le_succ _),
      List.nil_append, Nat.add_sub_cancel_left]
    rfl
  have hlen : ¬(name.length = (fieldLine (name, value)).length ∨ ¬isToken name = true) := by
    unfold fieldLine
    dsimp only
    rw [List.length_append, List.length_append]
    have : (ascii ": ").length = 2 := rfl
    rintro (h | h)
    · omega
    · exact h htoken
  unfold parseHeader
  dsimp only
  rw [hname, if_neg hlen, hdrop, List.dropWhile_cons, if_pos (by decide), hvalue]

/-! ## Reading the header lines -/

/-- What `receiveHeaders` does after the empty line. -/
def finishHeaders (b : ClientBuf) : ClientBuf :=
  if b.responseHeaders.find (ascii "Connection") = some (ascii "close") then
    { b with closeConnection := true }
  else b

theorem receiveHeadersLoop_nil {n : Nat} {b : ClientBuf} (hgood : b.conn.good = true) :
    receiveHeadersLoop n [] b = (none, finishHeaders b) := by
  unfold receiveHeadersLoop finishHeaders
  rw [hgood, if_neg (by decide), if_neg (by decide)]
  by_cases h : b.responseHeaders.find (ascii "Connection") = some (ascii "close")
  · rw [if_pos h, if_pos h]
  · rw [if_neg h, if_neg h]

theorem fieldLine_ne_nil (f : Text × Text) : fieldLine f ≠ [] := by
  intro h
  have hlen := congrArg List.length h
  unfold fieldLine at hlen
  rw [List.length_append, List.length_append] at hlen
  have : (ascii ": ").length = 2 := rfl
  rw [List.length_nil] at hlen
  omega

theorem receiveHeadersLoop_cons {n : Nat} {b : ClientBuf} {f : Text × Text}
    (hgood : b.conn.good = true) (hf : Field f) :
    receiveHeadersLoop (n + 1) (fieldLine f) b =
      receiveHeadersLoop n (readline b.conn maxLengthOfHeaderLine).1
        { b with
          responseHeaders := b.responseHeaders.add f.1 f.2
          conn := (readline b.conn maxLengthOfHeaderLine).2 } := by
  rw [receiveHeadersLoop, hgood, if_pos (by
    rw [Bool.true_and, decide_eq_true_iff]
    exact fieldLine_ne_nil f), hf.parsed]

/-- The lines of some fields, and the empty line. -/
def headerBytes (fs : List (Text × Text)) : Text :=
  (fs.map fun f => fieldLine f ++ crlf).flatten ++ crlf

/-- **The fields are added to the headers, and the bytes after the empty line stay.** -/
theorem receiveHeadersLoop_fields {rest : Text} : ∀ {fs : List (Text × Text)} {n : Nat}
    {b : ClientBuf}, (∀ f ∈ fs, Field f) → fs.length ≤ n →
    b.conn = ⟨headerBytes fs ++ rest, true⟩ →
    receiveHeadersLoop n (readline b.conn maxLengthOfHeaderLine).1
        { b with conn := (readline b.conn maxLengthOfHeaderLine).2 } =
      (none, finishHeaders { b with
        responseHeaders := fs.foldl (fun h f => h.add f.1 f.2) b.responseHeaders
        conn := ⟨rest, true⟩ })
  | [], n, b, _, _, hconn => by
    have hread := readline_line rest line_nil
    rw [List.nil_append] at hread
    rw [hconn, headerBytes, List.map_nil, List.flatten_nil, List.nil_append, hread]
    exact receiveHeadersLoop_nil rfl
  | f :: fs, n, b, hfs, hn, hconn => by
    obtain ⟨n, rfl⟩ : ∃ k, n = k + 1 := ⟨n - 1, by rw [List.length_cons] at hn; omega⟩
    have hf := hfs f List.mem_cons_self
    have hread := readline_line (headerBytes fs ++ rest) hf.line
    have hbytes : headerBytes (f :: fs) ++ rest
        = fieldLine f ++ (crlf ++ (headerBytes fs ++ rest)) := by
      unfold headerBytes
      rw [List.map_cons, List.flatten_cons]
      simp only [List.append_assoc]
    rw [hconn, hbytes, hread]
    dsimp only
    rw [receiveHeadersLoop_cons rfl hf]
    dsimp only
    have ih := receiveHeadersLoop_fields (n := n)
      (b := { b with
        responseHeaders := b.responseHeaders.add f.1 f.2
        conn := ⟨headerBytes fs ++ rest, true⟩ })
      (fun g hg => hfs g (List.mem_cons_of_mem _ hg))
      (by rw [List.length_cons] at hn; omega) rfl
    exact ih

theorem receiveHeaders_fields {fs : List (Text × Text)} {rest : Text} {b : ClientBuf}
    (hfs : ∀ f ∈ fs, Field f) (hn : fs.length ≤ maxNumOfHeaderLines)
    (hconn : b.conn = ⟨headerBytes fs ++ rest, true⟩) :
    b.receiveHeaders = (none, finishHeaders { b with
      responseHeaders := fs.foldl (fun h f => h.add f.1 f.2) b.responseHeaders
      conn := ⟨rest, true⟩ }) :=
  receiveHeadersLoop_fields hfs hn hconn

/-- The last chunk has no trailer. -/
theorem receiveHeaders_crlf {rest : Text} {b : ClientBuf} (hconn : b.conn = ⟨crlf ++ rest, true⟩) :
    b.receiveHeaders = (none, finishHeaders { b with conn := ⟨rest, true⟩ }) :=
  receiveHeaders_fields (List.forall_mem_nil Field) (Nat.zero_le _) hconn

/-! ## The fields of the server -/

/-- The header fields of the server. -/
def fields (version : Version) (stamp : Stamp) (fileSize : Nat) : List (Text × Text) :=
  (if version = .http11 then [(ascii "Transfer-Encoding", ascii "chunked")] else [])
    ++ [(ascii "Date", makeHttpDate stamp.currentTime)]
    ++ (stamp.lastModified.map fun tm => (ascii "Last-Modified", makeHttpDate tm)).toList
    ++ (if stamp.sized then [(ascii "Content-Length", decimal fileSize)] else [])

theorem responseHead_eq (version : Version) (stamp : Stamp) (fileSize : Nat) :
    responseHead version stamp fileSize
      = statusLine version ++ (crlf ++ headerBytes (fields version stamp fileSize)) := by
  have hlines : headerLines version stamp fileSize
      = (fields version stamp fileSize).map fieldLine := by
    have hencoding : ascii "Transfer-Encoding: chunked"
        = fieldLine (ascii "Transfer-Encoding", ascii "chunked") := by decide
    have hdate : ascii "Date: " = ascii "Date" ++ ascii ": " := by decide
    have hmodified : ascii "Last-Modified: " = ascii "Last-Modified" ++ ascii ": " := by decide
    have hlength : ascii "Content-Length: " = ascii "Content-Length" ++ ascii ": " := by decide
    unfold headerLines fields
    rw [hencoding, hdate, hmodified, hlength, List.map_append, List.map_append, List.map_append]
    congr 1
    · congr 1
      · cases version <;> rfl
      · cases stamp.lastModified <;> rfl
    · cases stamp.sized <;> rfl
  unfold responseHead headerBytes
  rw [hlines, List.map_map]
  simp only [List.append_assoc]
  rfl

theorem field_date {name : Text} (tm : Tm) (hcolon : 58 ∉ name)
    (htoken : isToken name = true) (hshort : Short 20 name) : Field (name, makeHttpDate tm) := by
  refine ⟨?_, parseHeader_fieldLine hcolon htoken (makeHttpDate_not_space tm)⟩
  obtain ⟨t, ht, hlen⟩ := short_makeHttpDate tm
  have hline : Short (20 + 2 + 39) (name ++ ascii ": " ++ t) :=
    (hshort.append (by decide)).append hlen
  unfold fieldLine
  dsimp only
  rw [ht, ← List.append_assoc]
  refine line_concat hline.1 (by decide) (by decide) ?_
  have := hline.2
  unfold maxLengthOfHeaderLine
  omega

theorem numeral_concat {base : Nat} (hb : 1 < base) (n : Nat) :
    ∃ t, numeral base n = t ++ [digitByte (n % base)] := by
  rw [numeral_eq hb]
  by_cases h : n < base
  · rw [if_pos h, Nat.mod_eq_of_lt h]
    exact ⟨[], rfl⟩
  · rw [if_neg h]
    exact ⟨_, rfl⟩

theorem field_length {n : Nat} (hn : n < 2 ^ 63) :
    Field (ascii "Content-Length", decimal n) := by
  have hdigit := numeral_digit (by decide : 1 < 10) (by decide) n
  refine ⟨?_, parseHeader_fieldLine (by decide) (by decide) ?_⟩
  · obtain ⟨t, ht⟩ := numeral_concat (by decide : 1 < 10) n
    have hlen := numeral_length (n := n) (k := 20) (by decide : 1 < 10) (by decide) (by omega)
    rw [ht] at hdigit hlen
    rw [List.length_append, List.length_singleton] at hlen
    have hlast := digit_plain (by decide) (hdigit _ (List.mem_append_right _ List.mem_cons_self))
    have hshort : Short 20 t := by
      refine ⟨fun hc => ?_, by omega⟩
      exact (digit_plain (by decide) (hdigit 10 (List.mem_append_left _ hc))).1 rfl
    have hline : Short (16 + 20) (ascii "Content-Length" ++ ascii ": " ++ t) :=
      Short.append (by decide) hshort
    have heq : fieldLine (ascii "Content-Length", decimal n)
        = (ascii "Content-Length" ++ ascii ": " ++ t) ++ [digitByte (n % 10)] := by
      unfold fieldLine
      dsimp only
      rw [List.append_assoc _ t, ← ht]
      rfl
    rw [heq]
    refine line_concat hline.1 hlast.1 hlast.2.2.2.2.2.2 ?_
    have := hline.2
    unfold maxLengthOfHeaderLine
    omega
  · cases h : decimal n with
    | nil => rfl
    | cons c u =>
      have hc := digit_plain (by decide) (hdigit c (by
        rw [show numeral 10 n = c :: u from h]
        exact List.mem_cons_self))
      rw [List.dropWhile_cons, hc.2.2.2.2.2.1]
      rfl

theorem fields_field (version : Version) (stamp : Stamp) {n : Nat} (hn : n < 2 ^ 63) :
    ∀ f ∈ fields version stamp n, Field f := by
  intro f hf
  unfold fields at hf
  simp only [List.mem_append] at hf
  rcases hf with ((hf | hf) | hf) | hf
  · split at hf
    · rw [List.mem_singleton.mp hf]
      exact ⟨⟨by decide, by decide, by decide⟩, by decide⟩
    · cases hf
  · rw [List.mem_singleton.mp hf]
    exact field_date _ (by decide) (by decide) (by decide)
  · obtain ⟨tm, -, rfl⟩ := Option.map_eq_some_iff.mp (Option.mem_toList.mp hf)
    exact field_date _ (by decide) (by decide) (by decide)
  · split at hf
    · rw [List.mem_singleton.mp hf]
      exact field_length hn
    · cases hf

/-- Fields with different names are the headers. -/
theorem foldl_add {fs h : List (Text × Text)}
    (hd : (h ++ fs).Pairwise fun f g => sameName f.1 g.1 = false) :
    fs.foldl (fun h f => Headers.add h f.1 f.2) h = h ++ fs := by
  induction fs generalizing h with
  | nil => exact (List.append_nil h).symm
  | cons f fs ih =>
    have hnone : Headers.find h f.1 = none := by
      unfold Headers.find
      rw [Option.map_eq_none_iff, List.find?_eq_none]
      intro g hg hsame
      have := (List.pairwise_append.mp hd).2.2 g hg f List.mem_cons_self
      rw [this] at hsame
      cases hsame
    have hadd : Headers.add h f.1 f.2 = h ++ [f] := by
      unfold Headers.add
      rw [hnone]
    have hassoc : h ++ f :: fs = (h ++ [f]) ++ fs := by
      rw [List.append_assoc]
      rfl
    rw [hassoc] at hd ⊢
    rw [List.foldl_cons, hadd, ih hd]

/-- The names of the fields. -/
def fieldNames (version : Version) (modified sized : Bool) : List Text :=
  (if version = .http11 then [ascii "Transfer-Encoding"] else []) ++ [ascii "Date"]
    ++ (if modified then [ascii "Last-Modified"] else [])
    ++ (if sized then [ascii "Content-Length"] else [])

theorem map_fst_fields (version : Version) (stamp : Stamp) (n : Nat) :
    (fields version stamp n).map Prod.fst
      = fieldNames version stamp.lastModified.isSome stamp.sized := by
  unfold fields fieldNames
  cases version <;> cases stamp.lastModified <;> cases stamp.sized <;> rfl

theorem fields_pairwise (version : Version) (stamp : Stamp) (n : Nat) :
    (fields version stamp n).Pairwise fun f g => sameName f.1 g.1 = false := by
  suffices h : ((fields version stamp n).map Prod.fst).Pairwise fun a b => sameName a b = false from
    List.pairwise_map.mp h
  rw [map_fst_fields]
  cases version <;> cases stamp.lastModified.isSome <;> cases stamp.sized <;> decide

/-- The headers that the client gets from the server. -/
theorem foldl_fields (version : Version) (stamp : Stamp) (n : Nat) :
    (fields version stamp n).foldl (fun h f => Headers.add h f.1 f.2) [] = fields version stamp n :=
  foldl_add (h := []) (fields_pairwise version stamp n)

theorem find_connection (version : Version) (stamp : Stamp) (n : Nat) :
    Headers.find (fields version stamp n) (ascii "Connection") = none := by
  unfold fields
  cases version <;> cases stamp.lastModified <;> cases stamp.sized <;> rfl

theorem find_transferEncoding (version : Version) (stamp : Stamp) (n : Nat) :
    Headers.find (fields version stamp n) (ascii "Transfer-Encoding")
      = if version = .http11 then some (ascii "chunked") else none := by
  unfold fields
  cases version <;> cases stamp.lastModified <;> cases stamp.sized <;> rfl

theorem find_contentLength (version : Version) (stamp : Stamp) (n : Nat) :
    Headers.find (fields version stamp n) (ascii "Content-Length")
      = if stamp.sized then some (decimal n) else none := by
  unfold fields
  cases version <;> cases stamp.lastModified <;> cases stamp.sized <;> rfl

theorem fields_length_le (version : Version) (stamp : Stamp) (n : Nat) :
    (fields version stamp n).length ≤ maxNumOfHeaderLines := by
  rw [← List.length_map (f := Prod.fst), map_fst_fields]
  cases version <;> cases stamp.lastModified.isSome <;> cases stamp.sized <;> decide

/-! ## The answer to a GET -/

/-- The minor version that the client takes over. -/
def Version.minor : Version → Nat
  | .http10 => 0
  | .http11 => 1

/-- The client after the status line of the server. -/
theorem receiveStatus_statusLine {version : Version} {rest : Text} {b : ClientBuf}
    (hmajor : b.majorVersion = 1) (hminor : b.minorVersion = 1)
    (hconn : b.conn = ⟨statusLine version ++ (crlf ++ rest), true⟩) :
    b.receiveStatus = (none, { b with
      status := statusLine version
      conn := ⟨rest, true⟩
      majorVersion := 1
      minorVersion := version.minor
      closeConnection := b.closeConnection || version = .http10
      statusCode := 200
      reason := ascii "Ok" }) := by
  have hline : Line (statusLine version) := by
    cases version
    · exact ⟨by decide, by decide, by decide⟩
    · exact ⟨by decide, by decide, by decide⟩
  obtain ⟨state, conn, sent, chunked, firstChunk, chunkRemaining, contentLength, contentRemaining,
    haveLast, havePending, pending, closeConnection, majorVersion, minorVersion, statusCode, status,
    reason, responseHeaders⟩ := b
  obtain rfl : majorVersion = 1 := hmajor
  obtain rfl : minorVersion = 1 := hminor
  obtain rfl : conn = _ := hconn
  unfold ClientBuf.receiveStatus
  rw [readline_line _ hline]
  cases version
  · rw [show (closeConnection || decide (Version.http10 = .http10)) = true from Bool.or_true _]
    rfl
  · rw [show (closeConnection || decide (Version.http11 = .http10)) = closeConnection from
      Bool.or_false _]
    rfl

/-- **After the head of the answer the body is on the connection.** -/
theorem receiveResponse_responseHead {version : Version} {stamp : Stamp} {n fuel : Nat}
    (hn : n < 2 ^ 63) {rest : Text} {b : ClientBuf} (hmajor : b.majorVersion = 1)
    (hminor : b.minorVersion = 1) (hheaders : b.responseHeaders = [])
    (hconn : b.conn = ⟨responseHead version stamp n ++ rest, true⟩) :
    receiveResponse (fuel + 1) b = (none, { b with
      status := statusLine version
      conn := ⟨rest, true⟩
      majorVersion := 1
      minorVersion := version.minor
      closeConnection := b.closeConnection || version = .http10
      statusCode := 200
      reason := ascii "Ok"
      responseHeaders := fields version stamp n }) := by
  have hhead : b.conn
      = ⟨statusLine version ++ (crlf ++ (headerBytes (fields version stamp n) ++ rest)), true⟩ := by
    rw [hconn, responseHead_eq]
    simp only [List.append_assoc]
  rw [receiveResponse, receiveStatus_statusLine hmajor hminor hhead]
  dsimp only
  rw [receiveHeaders_fields (fields_field version stamp hn) (fields_length_le version stamp n) rfl]
  dsimp only
  rw [hheaders, foldl_fields]
  unfold finishHeaders
  dsimp only
  rw [find_connection, if_neg (Option.some_ne_none _).symm]
  exact if_neg (by decide : ¬(100 ≤ 200 ∧ 200 < 200))

end OpenCpi.Http
