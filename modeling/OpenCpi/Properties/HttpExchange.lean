import Mathlib.Algebra.GroupWithZero.Nat
import OpenCpi.Http.Exchange
import OpenCpi.Properties.HttpHead

/-!
# What a client makes of any answer

A stream of bytes is read as a sequence of heads: of interim responses, and of a final one. The client
survives a stream if no status line breaks off behind the version or the status code: it is cut by positions
that a short line does not have, and what is thrown then is not a text. The headers are those of the final
response if the interim ones have none: they are read into the same map, which is cleared once.
-/

namespace OpenCpi.Http

open Value (Text)
open Sim (ascii digits)

/-! ## Streams of responses -/

/-- The status line and the header fields of a response. -/
structure Head where
  minorVersion : Nat
  statusCode : Nat
  reason : Text
  fields : List (Text × Text)

/-- The header fields, the same names merged. -/
def mergeFields (h : Headers) (fields : List (Text × Text)) : Headers :=
  fields.foldl (fun h f => h.add f.1 f.2) h

def Head.headers (h : Head) : Headers := mergeFields [] h.fields

def Head.Interim (h : Head) : Prop := 100 ≤ h.statusCode ∧ h.statusCode < 200

/-- What a status line is: one that is refused, one that breaks off, or one with a status. -/
inductive StatusLine where
  | refused
  | short
  | status (minorVersion statusCode : Nat) (reason : Text)

/-- The minor version of a line, when it is one that goes with the version of the request. -/
def versionOf (majorVersion minorVersion : Nat) (version : Text) : Option Nat :=
  if version = ascii "1.1" ∧ majorVersion = 1 ∧ 0 < minorVersion then some 1
  else if version = ascii "1.0" then some 0
  else none

def parseStatus (majorVersion minorVersion : Nat) (line : Text) : StatusLine :=
  if line.take 5 ≠ ascii "HTTP/" then .refused
  else
    match versionOf majorVersion minorVersion ((line.drop 5).take 3) with
    | none => .refused
    | some minorVersion =>
      if line.length < 9 then .short
      else if !isStatusCode ((line.drop 9).take 3) then .refused
      else if line.length < 13 then .short
      else .status minorVersion (digits 10 0 0 ((line.drop 9).take 3)).1 (line.drop 13)

/-- The header fields up to an empty line, when `n` more are allowed. -/
def readFields : Nat → Text → Conn → Option (List (Text × Text) × Conn)
  | n, line, conn =>
    if conn.good && line ≠ [] then
      match n with
      | 0 => none
      | n + 1 =>
        (parseHeader line).bind fun f =>
          (readFields n (readline conn maxLengthOfHeaderLine).1 (readline conn maxLengthOfHeaderLine).2).map
            fun r => (f :: r.1, r.2)
    else if conn.good then some ([], conn)
    else none

/-- What is at the start of a stream: a status line that breaks off, no response, or a head. -/
inductive HeadRead where
  | short
  | failed
  | head (h : Head) (conn : Conn)

def readHead (majorVersion minorVersion : Nat) (conn : Conn) : HeadRead :=
  let (line, conn) := readline conn maxLengthOfHeaderLine
  if conn.good = false then .failed
  else
    match parseStatus majorVersion minorVersion line with
    | .refused => .failed
    | .short => .short
    | .status minorVersion statusCode reason =>
      match readFields maxNumOfHeaderLines (readline conn maxLengthOfHeaderLine).1
          (readline conn maxLengthOfHeaderLine).2 with
      | none => .failed
      | some (fields, conn) => .head ⟨minorVersion, statusCode, reason, fields⟩ conn

/-- How a stream ends for the client. -/
inductive StreamEnd where
  | short
  | failed
  | final (h : Head)

/-- **A stream of responses**: those before the final one, and the end. -/
inductive Responses : Nat → Nat → Conn → List Head → StreamEnd → Prop
  | short {major minor : Nat} {conn : Conn} (h : readHead major minor conn = .short) :
      Responses major minor conn [] .short
  | failed {major minor : Nat} {conn : Conn} (h : readHead major minor conn = .failed) :
      Responses major minor conn [] .failed
  | final {major minor : Nat} {conn rest : Conn} {head : Head}
      (h : readHead major minor conn = .head head rest) (hfinal : ¬head.Interim) :
      Responses major minor conn [] (.final head)
  | interim {major minor : Nat} {conn rest : Conn} {head : Head} {heads : List Head} {e : StreamEnd}
      (h : readHead major minor conn = .head head rest) (hinterim : head.Interim)
      (hs : Responses 1 head.minorVersion rest heads e) : Responses major minor conn (head :: heads) e

/-- The version that a request is sent with. -/
def requestMinor (b : ClientBuf) : RequestType → Nat
  | .get | .head | .delete => b.minorVersion
  | .put | .post => 0

def requestMajor (b : ClientBuf) : RequestType → Nat
  | .get | .head | .delete => b.majorVersion
  | .put | .post => 1

/-- What the client knows of a response after it. -/
structure Took (h : Head) (b : ClientBuf) : Prop where
  statusCode : b.statusCode = h.statusCode
  reason : b.reason = h.reason
  responseHeaders : b.responseHeaders = h.headers

/-- The body that follows a head is in chunks, or has a length, as its headers say. -/
structure FramedBy (h : Head) (b : ClientBuf) : Prop where
  chunked : b.chunked = true ↔
    1 ≤ h.minorVersion ∧ h.headers.find (ascii "Transfer-Encoding") = some (ascii "chunked")
  contentLength : b.contentLength =
    match h.headers.find (ascii "Content-Length") with
    | some cl => if atEnd (strtoul 10 cl).2 then (strtoul 10 cl).1 else minusOne
    | none => minusOne

/-- **The client survives an answer.** -/
structure Survives (b : ClientBuf) (requestType : RequestType) (host request : Text) (headers : Headers)
    (upload : Text) : Prop where
  text : (b.exchange requestType host request headers upload).1 ≠ some .outOfRange
  final : (b.exchange requestType host request headers upload).1 = none →
    ∃ heads h, Responses (requestMajor b requestType) (requestMinor b requestType) b.conn heads (.final h) ∧
      Took h (b.exchange requestType host request headers upload).2 ∧
      ((b.exchange requestType host request headers upload).2.state = .download →
        requestType ≠ .put → requestType ≠ .post →
        FramedBy h (b.exchange requestType host request headers upload).2)

/-- A stream that the client survives. -/
def Tidy (major minor : Nat) (conn : Conn) : Prop :=
  ∃ heads e, Responses major minor conn heads e ∧
    match e with
    | .short => False
    | .failed => True
    | .final _ => ∀ h ∈ heads, h.fields = []

variable {b b' : ClientBuf} {major minor : Nat} {conn : Conn} {h : Head} {e : StreamEnd}

/-! ## Status lines -/

theorem takeVersion_cases (b : ClientBuf) (version : Text) :
    (versionOf b.majorVersion b.minorVersion version = none ∧ b.takeVersion version = none) ∨
      ∃ m close, versionOf b.majorVersion b.minorVersion version = some m ∧ b.takeVersion version =
        some { b with majorVersion := 1, minorVersion := m, closeConnection := close } := by
  unfold versionOf ClientBuf.takeVersion
  by_cases h11 : version = ascii "1.1" ∧ b.majorVersion = 1 ∧ 0 < b.minorVersion
  · rw [if_pos h11, if_pos h11]
    exact Or.inr ⟨1, b.closeConnection, rfl, rfl⟩
  · rw [if_neg h11, if_neg h11]
    by_cases h10 : version = ascii "1.0"
    · rw [if_pos h10, if_pos h10]
      exact Or.inr ⟨0, true, rfl, rfl⟩
    · rw [if_neg h10, if_neg h10]
      exact Or.inl ⟨rfl, rfl⟩

/-- What is left of the status line in the buffer. -/
structure TookStatus (b : ClientBuf) (conn : Conn) (minor code : Nat) (reason : Text) (b' : ClientBuf) : Prop where
  conn : b'.conn = conn
  major : b'.majorVersion = 1
  minor : b'.minorVersion = minor
  statusCode : b'.statusCode = code
  reason : b'.reason = reason
  responseHeaders : b'.responseHeaders = b.responseHeaders

/-- **What is thrown for a status line**: a text, unless it breaks off. -/
theorem receiveStatus_spec (b : ClientBuf) :
    if (readline b.conn maxLengthOfHeaderLine).2.good = false then ∃ t, b.receiveStatus.1 = some (.text t)
    else
      match parseStatus b.majorVersion b.minorVersion (readline b.conn maxLengthOfHeaderLine).1 with
      | .refused => ∃ t, b.receiveStatus.1 = some (.text t)
      | .short => b.receiveStatus.1 = some .outOfRange
      | .status minor code reason => b.receiveStatus.1 = none ∧
          TookStatus b (readline b.conn maxLengthOfHeaderLine).2 minor code reason b.receiveStatus.2 := by
  unfold ClientBuf.receiveStatus parseStatus
  rcases readline b.conn maxLengthOfHeaderLine with ⟨line, conn⟩
  dsimp only
  cases conn.good with
  | false => exact ⟨_, rfl⟩
  | true =>
    simp only [Bool.not_true, Bool.false_eq_true, if_false, Bool.true_eq_false]
    by_cases hhttp : line.take 5 ≠ ascii "HTTP/"
    · rw [if_pos hhttp, if_pos hhttp]
      exact ⟨_, rfl⟩
    · rw [if_neg hhttp, if_neg hhttp]
      rcases takeVersion_cases { b with status := line, conn := conn } ((line.drop 5).take 3) with
        ⟨hnone, htake⟩ | ⟨m, close, hsome, htake⟩
      · dsimp only at hnone
        rw [hnone, htake]
        exact ⟨_, rfl⟩
      · dsimp only at hsome
        rw [hsome, htake]
        dsimp only
        by_cases h9 : line.length < 9
        · rw [if_pos h9, if_pos h9]
        · rw [if_neg h9, if_neg h9]
          cases isStatusCode ((line.drop 9).take 3) with
          | false => exact ⟨_, rfl⟩
          | true =>
            simp only [Bool.not_true, Bool.false_eq_true, if_false]
            by_cases h13 : line.length < 13
            · rw [if_pos h13, if_pos h13]
            · rw [if_neg h13, if_neg h13]
              exact ⟨rfl, rfl, rfl, rfl, rfl, rfl, rfl⟩

/-! ## Header fields -/

/-- What is left of the header fields in the buffer. -/
structure TookFields (b : ClientBuf) (conn : Conn) (fields : List (Text × Text)) (b' : ClientBuf) : Prop where
  conn : b'.conn = conn
  major : b'.majorVersion = b.majorVersion
  minor : b'.minorVersion = b.minorVersion
  statusCode : b'.statusCode = b.statusCode
  reason : b'.reason = b.reason
  responseHeaders : b'.responseHeaders = mergeFields b.responseHeaders fields

/-- The empty line, or a broken connection. -/
theorem receiveHeadersLoop_stop {n : Nat} {line : Text} (hstop : ¬(b.conn.good && decide (line ≠ [])) = true) :
    match readFields n line b.conn with
    | none => ∃ t, (receiveHeadersLoop n line b).1 = some (.text t)
    | some (fields, conn) => (receiveHeadersLoop n line b).1 = none ∧
        TookFields b conn fields (receiveHeadersLoop n line b).2 := by
  unfold readFields receiveHeadersLoop
  rw [if_neg hstop, if_neg hstop]
  cases hgood : b.conn.good with
  | false => exact ⟨_, rfl⟩
  | true =>
    simp only [if_true, Bool.not_true, Bool.false_eq_true, if_false]
    split <;> exact ⟨rfl, rfl, rfl, rfl, rfl, rfl, rfl⟩

/-- **What is thrown for header fields** is a text. -/
theorem receiveHeadersLoop_spec (n : Nat) : ∀ (line : Text) (b : ClientBuf),
    match readFields n line b.conn with
    | none => ∃ t, (receiveHeadersLoop n line b).1 = some (.text t)
    | some (fields, conn) => (receiveHeadersLoop n line b).1 = none ∧
        TookFields b conn fields (receiveHeadersLoop n line b).2 := by
  induction n with
  | zero =>
    intro line b
    by_cases hmore : (b.conn.good && decide (line ≠ [])) = true
    · unfold readFields receiveHeadersLoop
      rw [if_pos hmore, if_pos hmore]
      exact ⟨_, rfl⟩
    · exact receiveHeadersLoop_stop hmore
  | succ n ih =>
    intro line b
    by_cases hmore : (b.conn.good && decide (line ≠ [])) = true
    · unfold readFields receiveHeadersLoop
      rw [if_pos hmore, if_pos hmore]
      dsimp only
      cases parseHeader line with
      | none => exact ⟨_, rfl⟩
      | some f =>
        dsimp only [Option.bind_some]
        have hrest := ih (readline b.conn maxLengthOfHeaderLine).1
          { b with
            responseHeaders := b.responseHeaders.add f.1 f.2
            conn := (readline b.conn maxLengthOfHeaderLine).2 }
        dsimp only at hrest
        cases hfields : readFields n (readline b.conn maxLengthOfHeaderLine).1
            (readline b.conn maxLengthOfHeaderLine).2 with
        | none =>
          rw [hfields] at hrest
          exact hrest
        | some r =>
          rw [hfields] at hrest
          obtain ⟨hnone, htook⟩ := hrest
          exact ⟨hnone, htook.conn, htook.major, htook.minor, htook.statusCode, htook.reason,
            htook.responseHeaders⟩
    · exact receiveHeadersLoop_stop hmore

/-! ## Responses -/

/-- What is left of a head in the buffer: its fields are added to those that are there. -/
structure TookHead (b : ClientBuf) (h : Head) (conn : Conn) (b' : ClientBuf) : Prop where
  conn : b'.conn = conn
  major : b'.majorVersion = 1
  minor : b'.minorVersion = h.minorVersion
  statusCode : b'.statusCode = h.statusCode
  reason : b'.reason = h.reason
  responseHeaders : b'.responseHeaders = mergeFields b.responseHeaders h.fields

/-- **Status and headers of a response.** -/
theorem receiveHead_spec (b : ClientBuf) :
    match readHead b.majorVersion b.minorVersion b.conn with
    | .short => b.receiveStatus.1 = some .outOfRange
    | .failed => (∃ t, b.receiveStatus.1 = some (.text t)) ∨
        b.receiveStatus.1 = none ∧ ∃ t, b.receiveStatus.2.receiveHeaders.1 = some (.text t)
    | .head h conn => b.receiveStatus.1 = none ∧ b.receiveStatus.2.receiveHeaders.1 = none ∧
        TookHead b h conn b.receiveStatus.2.receiveHeaders.2 := by
  have hstatus := receiveStatus_spec b
  unfold readHead
  generalize readline b.conn maxLengthOfHeaderLine = r at hstatus ⊢
  obtain ⟨line, conn⟩ := r
  dsimp only at hstatus ⊢
  by_cases hgood : conn.good = false
  · rw [if_pos hgood] at hstatus ⊢
    exact Or.inl hstatus
  · rw [if_neg hgood] at hstatus ⊢
    generalize parseStatus b.majorVersion b.minorVersion line = status at hstatus ⊢
    cases status with
    | refused => exact Or.inl hstatus
    | short => exact hstatus
    | status minor code reason =>
      obtain ⟨hnone, htook⟩ := hstatus
      dsimp only at htook ⊢
      have hfields := receiveHeadersLoop_spec maxNumOfHeaderLines (readline conn maxLengthOfHeaderLine).1
        { b.receiveStatus.2 with conn := (readline conn maxLengthOfHeaderLine).2 }
      have hheaders : b.receiveStatus.2.receiveHeaders =
          receiveHeadersLoop maxNumOfHeaderLines (readline conn maxLengthOfHeaderLine).1
            { b.receiveStatus.2 with conn := (readline conn maxLengthOfHeaderLine).2 } := by
        unfold ClientBuf.receiveHeaders
        rw [htook.conn]
      rw [← hheaders] at hfields
      dsimp only at hfields
      cases hread : readFields maxNumOfHeaderLines (readline conn maxLengthOfHeaderLine).1
          (readline conn maxLengthOfHeaderLine).2 with
      | none =>
        rw [hread] at hfields
        exact Or.inr ⟨hnone, hfields⟩
      | some r =>
        rw [hread] at hfields
        obtain ⟨hnone', htook'⟩ := hfields
        exact ⟨hnone, hnone', htook'.conn, htook'.major.trans htook.major, htook'.minor.trans htook.minor,
          htook'.statusCode.trans htook.statusCode, htook'.reason.trans htook.reason,
          htook'.responseHeaders.trans (congrArg (mergeFields · r.1) htook.responseHeaders)⟩

/-! ## Every stream is one of responses -/

/-- A line that is read takes at least its end from the stream. -/
theorem readlineLoop_length {maxSize : Nat} : ∀ (bytes res : Text),
    (readlineLoop maxSize bytes res).2.bytes.length ≤ bytes.length ∧
      ((readlineLoop maxSize bytes res).2.good = true →
        (readlineLoop maxSize bytes res).2.bytes.length < bytes.length)
  | [], res => ⟨Nat.le_refl _, fun h => absurd h Bool.false_ne_true⟩
  | c :: rest, res => by
    have ih := @readlineLoop_length maxSize rest (res ++ [c])
    unfold readlineLoop
    rw [List.length_cons]
    split
    · exact ⟨Nat.le_succ _, fun _ => Nat.lt_succ_self _⟩
    · split
      · exact ⟨Nat.le_succ _, fun h => absurd h Bool.false_ne_true⟩
      · exact ⟨Nat.le_succ_of_le ih.1, fun h => Nat.lt_succ_of_lt (ih.2 h)⟩

theorem readline_length (conn : Conn) (maxSize : Nat) :
    (readline conn maxSize).2.bytes.length ≤ conn.bytes.length ∧
      ((readline conn maxSize).2.good = true → (readline conn maxSize).2.bytes.length < conn.bytes.length) := by
  unfold readline
  split
  · exact readlineLoop_length _ _
  · next h => exact ⟨Nat.le_refl _, fun hgood => absurd hgood h⟩

theorem readFields_length {n : Nat} {line : Text} {fields : List (Text × Text)} {rest : Conn}
    (h : readFields n line conn = some (fields, rest)) : rest.bytes.length ≤ conn.bytes.length := by
  induction n generalizing line conn fields with
  | zero =>
    unfold readFields at h
    split at h
    · cases h
    · split at h
      · cases h
        exact Nat.le_refl _
      · cases h
  | succ n ih =>
    unfold readFields at h
    split at h
    · obtain ⟨f, -, hmap⟩ := Option.bind_eq_some_iff.mp h
      obtain ⟨r, hr, heq⟩ := Option.map_eq_some_iff.mp hmap
      cases heq
      exact Nat.le_trans (ih hr) (readline_length _ _).1
    · split at h
      · cases h
        exact Nat.le_refl _
      · cases h

theorem readHead_length {rest : Conn} (hread : readHead major minor conn = .head h rest) :
    rest.bytes.length < conn.bytes.length := by
  have hline := readline_length conn maxLengthOfHeaderLine
  unfold readHead at hread
  generalize readline conn maxLengthOfHeaderLine = r at hline hread
  obtain ⟨line, conn'⟩ := r
  dsimp only at hline hread
  split at hread
  · cases hread
  · next hgood =>
    split at hread
    · cases hread
    · cases hread
    · split at hread
      · cases hread
      · next hfields =>
        cases hread
        have hle := Nat.le_trans (readFields_length hfields) (readline_length conn' maxLengthOfHeaderLine).1
        exact Nat.lt_of_le_of_lt hle (hline.2 (by cases h : conn'.good with
          | true => rfl
          | false => exact absurd h hgood))

theorem exists_responses (n : Nat) : ∀ (major minor : Nat) (conn : Conn), conn.bytes.length ≤ n →
    ∃ heads e, Responses major minor conn heads e := by
  induction n with
  | zero =>
    intro major minor conn hn
    cases hread : readHead major minor conn with
    | short => exact ⟨[], _, .short hread⟩
    | failed => exact ⟨[], _, .failed hread⟩
    | head h rest => exact absurd (readHead_length hread) (by omega)
  | succ n ih =>
    intro major minor conn hn
    cases hread : readHead major minor conn with
    | short => exact ⟨[], _, .short hread⟩
    | failed => exact ⟨[], _, .failed hread⟩
    | head h rest =>
      by_cases hinterim : h.Interim
      · obtain ⟨heads, e, hs⟩ := ih 1 h.minorVersion rest (by have := readHead_length hread; omega)
        exact ⟨h :: heads, e, .interim hread hinterim hs⟩
      · exact ⟨[], _, .final hread hinterim⟩

theorem Responses.unique {heads heads' : List Head} {e' : StreamEnd} (hs : Responses major minor conn heads e)
    (hs' : Responses major minor conn heads' e') : heads = heads' ∧ e = e' := by
  induction hs generalizing heads' e' with
  | short h =>
    cases hs' with
    | short => exact ⟨rfl, rfl⟩
    | failed h' => cases h.symm.trans h'
    | final h' => cases h.symm.trans h'
    | interim h' => cases h.symm.trans h'
  | failed h =>
    cases hs' with
    | short h' => cases h.symm.trans h'
    | failed => exact ⟨rfl, rfl⟩
    | final h' => cases h.symm.trans h'
    | interim h' => cases h.symm.trans h'
  | final h hfinal =>
    cases hs' with
    | short h' => cases h.symm.trans h'
    | failed h' => cases h.symm.trans h'
    | final h' =>
      cases h.symm.trans h'
      exact ⟨rfl, rfl⟩
    | interim h' hinterim =>
      cases h.symm.trans h'
      exact absurd hinterim hfinal
  | interim h hinterim hs ih =>
    cases hs' with
    | short h' => cases h.symm.trans h'
    | failed h' => cases h.symm.trans h'
    | final h' hfinal =>
      cases h.symm.trans h'
      exact absurd hinterim hfinal
    | interim h' _ hs' =>
      cases h.symm.trans h'
      obtain ⟨rfl, rfl⟩ := ih hs'
      exact ⟨rfl, rfl⟩

/-! ## The loop over the responses -/

/-- What is left of the responses of a stream: the fields of all of them are merged. -/
structure TookFinal (b : ClientBuf) (heads : List Head) (h : Head) (b' : ClientBuf) : Prop where
  major : b'.majorVersion = 1
  minor : b'.minorVersion = h.minorVersion
  statusCode : b'.statusCode = h.statusCode
  reason : b'.reason = h.reason
  responseHeaders : b'.responseHeaders = mergeFields b.responseHeaders ((heads.map Head.fields).flatten ++ h.fields)

/-- What the client does at the end of a stream. -/
def Meets (b : ClientBuf) (heads : List Head) (o : Outcome) : StreamEnd → Prop
  | .short => o.1 = some .outOfRange
  | .failed => ∃ t, o.1 = some (.text t)
  | .final h => o.1 = none ∧ TookFinal b heads h o.2

theorem receiveResponse_succ {fuel : Nat} (hstatus : b.receiveStatus.1 = none)
    (hheaders : b.receiveStatus.2.receiveHeaders.1 = none) :
    receiveResponse (fuel + 1) b =
      if 100 ≤ b.receiveStatus.2.receiveHeaders.2.statusCode ∧
          b.receiveStatus.2.receiveHeaders.2.statusCode < 200 then
        receiveResponse fuel b.receiveStatus.2.receiveHeaders.2
      else (none, b.receiveStatus.2.receiveHeaders.2) := by
  rw [receiveResponse]
  generalize b.receiveStatus = status at hstatus hheaders ⊢
  obtain ⟨failure, b₁⟩ := status
  cases hstatus
  dsimp only at hheaders ⊢
  generalize b₁.receiveHeaders = headers at hheaders ⊢
  obtain ⟨failure, b₂⟩ := headers
  cases hheaders
  rfl

/-- **What the client makes of a stream.** -/
theorem receiveResponse_spec {heads : List Head} (hs : Responses major minor conn heads e) :
    ∀ {fuel : Nat} {b : ClientBuf}, b.majorVersion = major → b.minorVersion = minor → b.conn = conn →
      conn.bytes.length < fuel → Meets b heads (receiveResponse fuel b) e := by
  induction hs with
  | short h =>
    intro fuel b hmajor hminor hconn hfuel
    obtain ⟨fuel, rfl⟩ := Nat.exists_eq_succ_of_ne_zero (Nat.ne_zero_of_lt hfuel)
    have hhead := receiveHead_spec b
    rw [hmajor, hminor, hconn, h] at hhead
    unfold receiveResponse
    generalize b.receiveStatus = status at hhead ⊢
    obtain ⟨failure, b₁⟩ := status
    cases hhead
    rfl
  | failed h =>
    intro fuel b hmajor hminor hconn hfuel
    obtain ⟨fuel, rfl⟩ := Nat.exists_eq_succ_of_ne_zero (Nat.ne_zero_of_lt hfuel)
    have hhead := receiveHead_spec b
    rw [hmajor, hminor, hconn, h] at hhead
    unfold receiveResponse
    generalize b.receiveStatus = status at hhead ⊢
    obtain ⟨failure, b₁⟩ := status
    rcases hhead with ⟨t, hstatus⟩ | ⟨hnone, t, ht⟩
    · cases hstatus
      exact ⟨t, rfl⟩
    · cases hnone
      dsimp only at ht ⊢
      generalize b₁.receiveHeaders = headers at ht ⊢
      obtain ⟨failure, b₂⟩ := headers
      cases ht
      exact ⟨t, rfl⟩
  | final h hfinal =>
    intro fuel b hmajor hminor hconn hfuel
    obtain ⟨fuel, rfl⟩ := Nat.exists_eq_succ_of_ne_zero (Nat.ne_zero_of_lt hfuel)
    have hhead := receiveHead_spec b
    rw [hmajor, hminor, hconn, h] at hhead
    obtain ⟨hstatus, hheaders, htook⟩ := hhead
    unfold Head.Interim at hfinal
    rw [← htook.statusCode] at hfinal
    rw [receiveResponse_succ hstatus hheaders, if_neg hfinal]
    exact ⟨rfl, htook.major, htook.minor, htook.statusCode, htook.reason, htook.responseHeaders⟩
  | @interim _ _ _ rest head heads e h hinterim hs ih =>
    intro fuel b hmajor hminor hconn hfuel
    obtain ⟨fuel, rfl⟩ := Nat.exists_eq_succ_of_ne_zero (Nat.ne_zero_of_lt hfuel)
    have hlength := readHead_length h
    have hhead := receiveHead_spec b
    rw [hmajor, hminor, hconn, h] at hhead
    obtain ⟨hstatus, hheaders, htook⟩ := hhead
    unfold Head.Interim at hinterim
    rw [← htook.statusCode] at hinterim
    rw [receiveResponse_succ hstatus hheaders, if_pos hinterim]
    have hrest := @ih fuel _ htook.major htook.minor htook.conn (by omega)
    cases e with
    | short => exact hrest
    | failed => exact hrest
    | final last =>
      obtain ⟨hnone, hfinal⟩ := hrest
      refine ⟨hnone, hfinal.major, hfinal.minor, hfinal.statusCode, hfinal.reason,
        hfinal.responseHeaders.trans ?_⟩
      rw [htook.responseHeaders, List.map_cons, List.flatten_cons, List.append_assoc]
      exact List.foldl_append.symm

/-! ## Merging -/

theorem sameName_iff {a c : Text} : sameName a c = true ↔ a.map toLower = c.map toLower := decide_eq_true_iff

/-- How much a header says: nothing without it. -/
def Headers.weight (h : Headers) (name : Text) : Nat := (h.find name).elim 0 fun value => value.length + 1

/-- A field adds to its own header. -/
theorem weight_add (h : Headers) (name value m : Text) :
    (h.add name value).weight m = h.weight m + if sameName name m then value.length + 1 else 0 := by
  have hsame : sameName name m = true → h.find name = h.find m := fun hs => by
    unfold Headers.find sameName
    rw [sameName_iff.mp hs]
  unfold Headers.add
  cases hfind : h.find name with
  | none =>
    dsimp only
    by_cases hs : sameName name m = true
    · have hnone : h.find m = none := (hsame hs).symm.trans hfind
      have hnone' := Option.map_eq_none_iff.mp hnone
      unfold Headers.weight
      rw [hnone, Headers.find, List.find?_append, hnone', Option.none_or, List.find?_singleton, if_pos hs, if_pos hs]
      exact (Nat.zero_add _).symm
    · have hlast : Headers.find (h ++ [(name, value)]) m = h.find m := by
        unfold Headers.find
        rw [List.find?_append, List.find?_singleton, if_neg hs, Option.or_none]
      unfold Headers.weight
      rw [hlast, if_neg hs, Nat.add_zero]
  | some old =>
    have hmap : Headers.find (h.map fun f => if sameName f.1 name then (f.1, old ++ ascii "," ++ value) else f) m =
        (h.find? fun f => sameName f.1 m).map fun f =>
          if sameName f.1 name then old ++ ascii "," ++ value else f.2 := by
      unfold Headers.find
      rw [List.find?_map, Option.map_map]
      have hkey : ((fun f : Text × Text => sameName f.1 m) ∘ fun f =>
          if sameName f.1 name then (f.1, old ++ ascii "," ++ value) else f) = fun f => sameName f.1 m := by
        funext f
        dsimp only [Function.comp_apply]
        split
        · rfl
        · rfl
      rw [hkey]
      congr 1
      funext f
      dsimp only [Function.comp_apply]
      split
      · rfl
      · rfl
    unfold Headers.weight
    dsimp only
    rw [hmap]
    unfold Headers.find at hsame hfind ⊢
    cases hm : h.find? fun f => sameName f.1 m with
    | none =>
      have hs : ¬sameName name m = true := fun hs => by
        rw [hsame hs, hm] at hfind
        cases hfind
      rw [if_neg hs]
      rfl
    | some f =>
      have hf := List.find?_some hm
      dsimp only [Option.map_some, Option.elim_some]
      by_cases hs : sameName name m = true
      · have hname : sameName f.1 name = true := by
          rw [sameName_iff] at hf hs ⊢
          exact hf.trans hs.symm
        have hold : f.2 = old := by
          rw [hsame hs, hm] at hfind
          exact Option.some.inj hfind
        rw [if_pos hname, if_pos hs, List.length_append, List.length_append, hold]
        show old.length + 1 + value.length + 1 = _
        omega
      · have hname : ¬sameName f.1 name = true := fun hname => hs (by
          rw [sameName_iff] at hf hname ⊢
          exact hname.symm.trans hf)
        rw [if_neg hname, if_neg hs]

def totalWeight (fields : List (Text × Text)) (m : Text) : Nat :=
  (fields.map fun f => if sameName f.1 m then f.2.length + 1 else 0).sum

theorem weight_mergeFields (fields : List (Text × Text)) (m : Text) : ∀ h : Headers,
    (mergeFields h fields).weight m = h.weight m + totalWeight fields m := by
  induction fields with
  | nil => exact fun _ => rfl
  | cons f fields ih =>
    intro h
    have hstep : mergeFields h (f :: fields) = mergeFields (h.add f.1 f.2) fields := rfl
    have htotal : totalWeight (f :: fields) m =
        (if sameName f.1 m then f.2.length + 1 else 0) + totalWeight fields m := List.sum_cons
    rw [hstep, ih, weight_add, htotal, Nat.add_assoc]

/-- **Fields of an interim response show** in the headers, whatever the final response has. -/
theorem mergeFields_append_eq_iff {before fields : List (Text × Text)} :
    mergeFields [] (before ++ fields) = mergeFields [] fields ↔ before = [] := by
  constructor
  · intro h
    cases before with
    | nil => rfl
    | cons f before =>
      have hself : sameName f.1 f.1 = true := sameName_iff.mpr rfl
      have hweight := congrArg (Headers.weight · f.1) h
      rw [weight_mergeFields, weight_mergeFields] at hweight
      unfold totalWeight at hweight
      rw [List.map_append, List.sum_append, List.map_cons, List.sum_cons, if_pos hself] at hweight
      omega
  · rintro rfl
    rfl

/-! ## Exchanges -/

/-- The framing that headers say for a version. -/
theorem startDownload_framed (hmajor : b.majorVersion = 1) :
    (b.startDownload.chunked = true ↔ 1 ≤ b.minorVersion ∧
      b.responseHeaders.find (ascii "Transfer-Encoding") = some (ascii "chunked")) ∧
    b.startDownload.contentLength =
      match b.responseHeaders.find (ascii "Content-Length") with
      | some cl => if atEnd (strtoul 10 cl).2 then (strtoul 10 cl).1 else minusOne
      | none => minusOne := by
  have hencoding : (b.takeEncoding.chunked = true ↔ 1 ≤ b.minorVersion ∧
      b.responseHeaders.find (ascii "Transfer-Encoding") = some (ascii "chunked")) ∧
      b.takeEncoding.responseHeaders = b.responseHeaders := by
    unfold ClientBuf.takeEncoding
    by_cases hchunked : b.majorVersion = 1 ∧ 1 ≤ b.minorVersion ∧
        b.responseHeaders.find (ascii "Transfer-Encoding") = some (ascii "chunked")
    · rw [if_pos hchunked]
      exact ⟨iff_of_true rfl hchunked.2, rfl⟩
    · rw [if_neg hchunked]
      exact ⟨iff_of_false Bool.false_ne_true fun h => hchunked ⟨hmajor, h⟩, rfl⟩
  unfold ClientBuf.startDownload ClientBuf.takeLength
  rw [← hencoding.2]
  dsimp only
  rw [hencoding.2]
  cases b.responseHeaders.find (ascii "Content-Length") with
  | none => exact ⟨hencoding.1, rfl⟩
  | some cl =>
    dsimp only
    split
    · exact ⟨hencoding.1, rfl⟩
    · exact ⟨hencoding.1, rfl⟩

theorem startDownload_fields (b : ClientBuf) :
    b.startDownload.statusCode = b.statusCode ∧ b.startDownload.reason = b.reason ∧
      b.startDownload.responseHeaders = b.responseHeaders := by
  have hencoding : b.takeEncoding.statusCode = b.statusCode ∧ b.takeEncoding.reason = b.reason ∧
      b.takeEncoding.responseHeaders = b.responseHeaders := by
    unfold ClientBuf.takeEncoding
    split <;> exact ⟨rfl, rfl, rfl⟩
  have hlength (b : ClientBuf) : b.takeLength.statusCode = b.statusCode ∧ b.takeLength.reason = b.reason ∧
      b.takeLength.responseHeaders = b.responseHeaders := by
    unfold ClientBuf.takeLength
    split
    · dsimp only
      split <;> exact ⟨rfl, rfl, rfl⟩
    · exact ⟨rfl, rfl, rfl⟩
  obtain ⟨h1, h2, h3⟩ := hlength b.takeEncoding
  exact ⟨h1.trans hencoding.1, h2.trans hencoding.2.1, h3.trans hencoding.2.2⟩

/-- What an exchange makes of what the loop over the responses leaves. -/
structure Finishes (requestType : RequestType) (r o : Outcome) : Prop where
  failure : o.1 = r.1
  statusCode : o.1 = none → o.2.statusCode = r.2.statusCode
  reason : o.1 = none → o.2.reason = r.2.reason
  responseHeaders : o.1 = none → o.2.responseHeaders = r.2.responseHeaders
  framed : o.1 = none → requestType ≠ .put → requestType ≠ .post → o.2.state = .download →
    ∃ sent, o.2 = { r.2.startDownload with sent }

theorem finishes_failure {requestType : RequestType} {failure : Failure} :
    Finishes requestType (some failure, b) (some failure, b') where
  failure := rfl
  statusCode h := by cases h
  reason h := by cases h
  responseHeaders h := by cases h
  framed h := by cases h

theorem exchange_download {requestType : RequestType} {host request upload : Text} {headers : Headers}
    {b₀ : ClientBuf} (hstate : b.state = .sendRequest) (htype : requestType ≠ .put ∧ requestType ≠ .post)
    (hb₀ : { b with responseHeaders := [] }.sendAnyRequest requestType host request headers = b₀) :
    Finishes requestType (receiveResponse (b₀.conn.bytes.length + 1) b₀)
      (b.exchange requestType host request headers upload) := by
  have hsend : b.sendRequest requestType host request headers =
      b.sendGetOrHeadOrDeleteRequest requestType host request headers := by
    cases requestType with
    | get | head | delete => rfl
    | put => exact absurd rfl htype.1
    | post => exact absurd rfl htype.2
  unfold ClientBuf.exchange
  rw [hsend]
  unfold ClientBuf.sendGetOrHeadOrDeleteRequest
  rw [if_neg (fun h => h hstate), hb₀]
  dsimp only
  generalize receiveResponse (b₀.conn.bytes.length + 1) b₀ = r
  obtain ⟨_ | failure, b₁⟩ := r
  · dsimp only
    by_cases hbody : noBody requestType b₁.statusCode = true
    · rw [if_pos hbody]
      have hclosed (state : State) (hne : state ≠ .upload) (hnot : state ≠ .download) (sent : Text) :
          Finishes requestType (none, b₁) ({ b₁ with state, sent }).completeUpload := by
        unfold ClientBuf.completeUpload
        rw [if_pos hne]
        exact ⟨rfl, fun _ => rfl, fun _ => rfl, fun _ => rfl, fun _ _ _ h => absurd h hnot⟩
      exact hclosed (if b₁.closeConnection then .close else .sendRequest) (by split <;> exact nofun)
        (by split <;> exact nofun) _
    · rw [if_neg hbody]
      have hfields := startDownload_fields b₁
      dsimp only
      unfold ClientBuf.completeUpload
      rw [if_pos (by exact nofun)]
      exact ⟨rfl, fun _ => hfields.1, fun _ => hfields.2.1, fun _ => hfields.2.2, fun _ _ _ _ => ⟨_, rfl⟩⟩
  · exact finishes_failure

/-- The buffer when the answer to an upload is read. -/
def ClientBuf.uploaded (b : ClientBuf) (requestType : RequestType) (host request : Text) (headers : Headers)
    (upload : Text) : ClientBuf :=
  let b := { b with majorVersion := 1, minorVersion := 0, closeConnection := true, responseHeaders := [] }
    |>.sendAnyRequest requestType host request headers
  { b with state := .upload, chunked := false, contentLength := minusOne, sent := b.sent ++ upload }

theorem exchange_upload {requestType : RequestType} {host request upload : Text} {headers : Headers}
    {b₀ : ClientBuf} (hstate : b.state = .sendRequest) (htype : requestType = .put ∨ requestType = .post)
    (hb₀ : b.uploaded requestType host request headers upload = b₀) :
    Finishes requestType (receiveResponse (b₀.conn.bytes.length + 1) b₀)
      (b.exchange requestType host request headers upload) := by
  have hexchange : b.exchange requestType host request headers upload = b₀.completeUpload := by
    rw [← hb₀]
    unfold ClientBuf.exchange
    rcases htype with rfl | rfl
    · unfold ClientBuf.sendRequest ClientBuf.sendPutOrPostRequest
      dsimp only
      rw [if_neg (fun h => h hstate)]
      rfl
    · unfold ClientBuf.sendRequest ClientBuf.sendPutOrPostRequest
      dsimp only
      rw [if_neg (fun h => h hstate)]
      rfl
  have hupload : b₀.state = .upload := by
    rw [← hb₀]
    rfl
  rw [hexchange]
  unfold ClientBuf.completeUpload
  rw [if_neg (fun h => h hupload)]
  generalize receiveResponse (b₀.conn.bytes.length + 1) b₀ = r
  obtain ⟨_ | failure, b₁⟩ := r
  · refine ⟨rfl, fun _ => rfl, fun _ => rfl, fun _ => rfl, fun _ hput hpost => ?_⟩
    exact htype.elim (fun h => absurd h hput) fun h => absurd h hpost
  · exact finishes_failure

theorem exists_finishes {requestType : RequestType} {host request upload : Text} {headers : Headers}
    (hstate : b.state = .sendRequest) :
    ∃ b₀ : ClientBuf, b₀.majorVersion = requestMajor b requestType ∧ b₀.minorVersion = requestMinor b requestType ∧
      b₀.conn = b.conn ∧ b₀.responseHeaders = [] ∧
      Finishes requestType (receiveResponse (b₀.conn.bytes.length + 1) b₀)
        (b.exchange requestType host request headers upload) := by
  cases requestType with
  | get => refine ⟨_, ?_, ?_, ?_, ?_, exchange_download hstate ⟨nofun, nofun⟩ rfl⟩ <;> rfl
  | head => refine ⟨_, ?_, ?_, ?_, ?_, exchange_download hstate ⟨nofun, nofun⟩ rfl⟩ <;> rfl
  | delete => refine ⟨_, ?_, ?_, ?_, ?_, exchange_download hstate ⟨nofun, nofun⟩ rfl⟩ <;> rfl
  | put => refine ⟨_, ?_, ?_, ?_, ?_, exchange_upload hstate (Or.inl rfl) rfl⟩ <;> rfl
  | post => refine ⟨_, ?_, ?_, ?_, ?_, exchange_upload hstate (Or.inr rfl) rfl⟩ <;> rfl

/-- **The client survives exactly the tidy streams**: those in which no status line that it gets to breaks
off, and in which the responses before a final one have no header fields. -/
theorem survives_iff (b : ClientBuf) (requestType : RequestType) (host request : Text) (headers : Headers)
    (upload : Text) (hstate : b.state = .sendRequest) :
    Survives b requestType host request headers upload ↔
      Tidy (requestMajor b requestType) (requestMinor b requestType) b.conn := by
  obtain ⟨b₀, hmajor, hminor, hconn, hheaders, hfinishes⟩ :=
    @exists_finishes b requestType host request upload headers hstate
  obtain ⟨heads, e, hs⟩ := exists_responses _ (requestMajor b requestType) (requestMinor b requestType) b.conn
    (Nat.le_refl _)
  have hfuel : b.conn.bytes.length < b₀.conn.bytes.length + 1 := by
    rw [hconn]
    exact Nat.lt_succ_self _
  have hmeets := receiveResponse_spec hs hmajor hminor hconn hfuel
  constructor
  · rintro ⟨htext, hfinal⟩
    refine ⟨heads, e, hs, ?_⟩
    cases e with
    | short => exact htext (hfinishes.failure.trans hmeets)
    | failed => trivial
    | final h =>
      obtain ⟨hnone, htook⟩ := hmeets
      have hdone := hfinishes.failure.trans hnone
      obtain ⟨heads', h', hs', htook', -⟩ := hfinal hdone
      obtain ⟨rfl, heq⟩ := hs.unique hs'
      cases heq
      have hmerged : mergeFields [] ((heads.map Head.fields).flatten ++ h.fields) = mergeFields [] h.fields := by
        rw [← hheaders, ← htook.responseHeaders, ← hfinishes.responseHeaders hdone, hheaders]
        exact htook'.responseHeaders
      have hempty := mergeFields_append_eq_iff.mp hmerged
      intro head hhead
      exact List.flatten_eq_nil_iff.mp hempty _ (List.mem_map_of_mem hhead)
  · rintro ⟨heads', e', hs', htidy⟩
    obtain ⟨rfl, rfl⟩ := hs.unique hs'
    cases e with
    | short => exact htidy.elim
    | failed =>
      obtain ⟨t, ht⟩ := hmeets
      have hfailure := hfinishes.failure.trans ht
      refine ⟨fun h => ?_, fun h => ?_⟩
      · cases hfailure.symm.trans h
      · cases hfailure.symm.trans h
    | final h =>
      obtain ⟨hnone, htook⟩ := hmeets
      have hdone := hfinishes.failure.trans hnone
      have hempty : (heads.map Head.fields).flatten = [] := by
        rw [List.flatten_eq_nil_iff]
        intro fields hfields
        obtain ⟨head, hhead, rfl⟩ := List.mem_map.mp hfields
        exact htidy head hhead
      have hown := htook.responseHeaders
      rw [hempty, hheaders, List.nil_append] at hown
      refine ⟨(fun h => nomatch hdone.symm.trans h), fun _ => ⟨heads, h, hs, ?_, fun hdown hput hpost => ?_⟩⟩
      · exact ⟨(hfinishes.statusCode hdone).trans htook.statusCode, (hfinishes.reason hdone).trans htook.reason,
          (hfinishes.responseHeaders hdone).trans hown⟩
      · obtain ⟨sent, hframed⟩ := hfinishes.framed hdone hput hpost hdown
        obtain ⟨hchunked, hlength⟩ := startDownload_framed htook.major
        rw [htook.minor, hown] at hchunked
        rw [hown] at hlength
        rw [hframed]
        exact ⟨hchunked, hlength⟩

/-- A connection on which the server sends something. -/
def answered (answer : Text) : ClientBuf := ClientBuf.created.setConn ⟨answer, true⟩

theorem survives_ok :
    Survives (answered (ascii "HTTP/1.1 200 OK\r\n\r\n")) .get (ascii "host") (ascii "/") [] [] :=
  (survives_iff (answered (ascii "HTTP/1.1 200 OK\r\n\r\n")) .get (ascii "host") (ascii "/") [] [] rfl).mpr
    ⟨[], .final ⟨1, 200, ascii "OK", []⟩, .final rfl (by unfold Head.Interim; decide), fun _ h => nomatch h⟩

/-- A status line without a reason, not even an empty one. -/
theorem not_survives_short :
    ¬Survives (answered (ascii "HTTP/1.1 200\r\n\r\n")) .get (ascii "host") (ascii "/") [] [] :=
  fun h => h.text (by decide)

end OpenCpi.Http
