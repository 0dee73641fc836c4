import Mathlib.Data.List.TakeWhile
import Mathlib.Tactic.SplitIfs
import OpenCpi.Infra.Answers

/-!
# Input streams

An input stream reads from a buffer and keeps its state in three bits. It only asks its buffer when none of them is
set. Two streams whose buffers answer alike answer alike, whatever is asked of them.
-/

namespace OpenCpi.Infra

/-- Where an offset counts from. -/
inductive Way where
  | beg
  | cur
  | fin
deriving DecidableEq, Repr

/-- What a stream asks of its buffer. `pback none` goes back to the element before, `pback (some c)` only if it is
`c`. -/
structure Streambuf (α β : Type) where
  sgetn : Nat → β → List α × β
  sbumpc : β → Option α × β
  sgetc : β → Option α × β
  pback : Option α → β → Bool × β
  seekoff : Int → Way → β → Option Nat × β

structure Istream (β : Type) where
  buf : β
  eof : Bool := false
  fail : Bool := false
  bad : Bool := false
deriving DecidableEq, Repr

variable {α β γ : Type}

namespace Istream

def good (s : Istream β) : Bool := !s.eof && !s.fail && !s.bad

/-- `clear` -/
def clear (s : Istream β) : Istream β := { buf := s.buf }

variable (B : Streambuf α β)

def read (n : Nat) (s : Istream β) : List α × Istream β :=
  if s.good then
    let r := B.sgetn n s.buf
    (r.1, { s with buf := r.2, eof := r.1.length ≠ n, fail := r.1.length ≠ n })
  else ([], { s with fail := true })

def get (s : Istream β) : Option α × Istream β :=
  if s.good then
    let r := B.sbumpc s.buf
    (r.1, { s with buf := r.2, eof := r.1.isNone, fail := r.1.isNone })
  else (none, { s with fail := true })

def peek (s : Istream β) : Option α × Istream β :=
  if s.good then
    let r := B.sgetc s.buf
    (r.1, { s with buf := r.2, eof := r.1.isNone })
  else (none, { s with fail := true })

/-- `unget` and `putback` -/
def back (c : Option α) (s : Istream β) : Istream β :=
  if s.fail || s.bad then { s with eof := false, fail := true }
  else
    let r := B.pback c s.buf
    { s with buf := r.2, eof := false, bad := !r.1 }

def seekg (off : Int) (way : Way) (s : Istream β) : Istream β :=
  if s.fail || s.bad then { s with eof := false, fail := true }
  else
    let r := B.seekoff off way s.buf
    { s with buf := r.2, eof := false, fail := r.1.isNone }

/-- The position; `none` is -1. -/
def tellg (s : Istream β) : Option Nat × Istream β :=
  if s.good then
    let r := B.seekoff 0 .cur s.buf
    (r.1, { s with buf := r.2 })
  else (none, { s with fail := true })

end Istream

/-! ## Runs -/

inductive IstreamOp (α : Type) where
  | read (n : Nat)
  | get
  | peek
  | unget
  | putback (c : α)
  | seekg (off : Int) (way : Way)
  | tellg
  | clear
deriving DecidableEq

inductive IstreamAnswer (α : Type) where
  | block (data : List α)
  | element (c : Option α)
  | pos (p : Option Nat)
  | done
deriving DecidableEq

def Istream.step (B : Streambuf α β) (s : Istream β) : IstreamOp α → IstreamAnswer α × Istream β
  | .read n => (s.read B n).map .block id
  | .get => (s.get B).map .element id
  | .peek => (s.peek B).map .element id
  | .unget => (.done, s.back B none)
  | .putback c => (.done, s.back B (some c))
  | .seekg off way => (.done, s.seekg B off way)
  | .tellg => (s.tellg B).map .pos id
  | .clear => (.done, s.clear)

/-! ## Buffers that answer alike -/

/-- Buffers in a relation answer alike to what is asked with offsets in a range, and stay in it. -/
structure Streambuf.Like (B : Streambuf α β) (C : Streambuf α γ) (R : β → γ → Prop) (inRange : Int → Prop) : Prop where
  sgetn {b c} : R b c → ∀ n, Alike R (B.sgetn n b) (C.sgetn n c)
  sbumpc {b c} : R b c → Alike R (B.sbumpc b) (C.sbumpc c)
  sgetc {b c} : R b c → Alike R (B.sgetc b) (C.sgetc c)
  sungetc {b c} : R b c → Alike R (B.pback none b) (C.pback none c)
  seekoff {b c} : R b c → ∀ off way, inRange off → Alike R (B.seekoff off way b) (C.seekoff off way c)
  zero : inRange 0

/-- Streams in the same state whose buffers are in a relation. -/
structure Istream.Like (R : β → γ → Prop) (s : Istream β) (t : Istream γ) : Prop where
  buf : R s.buf t.buf
  eof : s.eof = t.eof
  fail : s.fail = t.fail
  bad : s.bad = t.bad

/-- An operation that buffers in a relation answer alike: nothing is put back. -/
def IstreamOp.ok (inRange : Int → Prop) : IstreamOp α → Prop
  | .putback _ => False
  | .seekg off _ => inRange off
  | _ => True

section

variable {B : Streambuf α β} {C : Streambuf α γ} {R : β → γ → Prop} {inRange : Int → Prop} {s : Istream β}
  {t : Istream γ}

theorem Istream.Like.good (h : s.Like R t) : s.good = t.good := by
  unfold Istream.good
  rw [h.eof, h.fail, h.bad]

/-- **Streams over buffers that answer alike answer alike**, and stay in the same state. -/
theorem Istream.Like.step (hB : B.Like C R inRange) (h : s.Like R t) {op : IstreamOp α} (hop : op.ok inRange) :
    Alike (Istream.Like R) (s.step B op) (t.step C op) := by
  have hgood := h.good
  obtain ⟨hbuf, heof, hfail, hbad⟩ := h
  cases op with
  | read n =>
    obtain ⟨hanswer, hnext⟩ := hB.sgetn hbuf n
    simp only [Istream.step, Istream.read, hgood, hanswer]
    split_ifs
    · exact ⟨rfl, hnext, rfl, rfl, hbad⟩
    · exact ⟨rfl, hbuf, heof, rfl, hbad⟩
  | get =>
    obtain ⟨hanswer, hnext⟩ := hB.sbumpc hbuf
    simp only [Istream.step, Istream.get, hgood, hanswer]
    split_ifs
    · exact ⟨rfl, hnext, rfl, rfl, hbad⟩
    · exact ⟨rfl, hbuf, heof, rfl, hbad⟩
  | peek =>
    obtain ⟨hanswer, hnext⟩ := hB.sgetc hbuf
    simp only [Istream.step, Istream.peek, hgood, hanswer]
    split_ifs
    · exact ⟨rfl, hnext, rfl, hfail, hbad⟩
    · exact ⟨rfl, hbuf, heof, rfl, hbad⟩
  | unget =>
    obtain ⟨hanswer, hnext⟩ := hB.sungetc hbuf
    simp only [Istream.step, Istream.back, hfail, hbad, hanswer]
    split_ifs
    · exact ⟨rfl, hbuf, rfl, rfl, rfl⟩
    · exact ⟨rfl, hnext, rfl, rfl, rfl⟩
  | putback c => exact hop.elim
  | seekg off way =>
    obtain ⟨hanswer, hnext⟩ := hB.seekoff hbuf off way hop
    simp only [Istream.step, Istream.seekg, hfail, hbad, hanswer]
    split_ifs
    · exact ⟨rfl, hbuf, rfl, rfl, rfl⟩
    · exact ⟨rfl, hnext, rfl, rfl, rfl⟩
  | tellg =>
    obtain ⟨hanswer, hnext⟩ := hB.seekoff hbuf 0 .cur hB.zero
    simp only [Istream.step, Istream.tellg, hgood, hanswer]
    split_ifs
    · exact ⟨rfl, hnext, heof, hfail, hbad⟩
    · exact ⟨rfl, hbuf, heof, rfl, hbad⟩
  | clear => exact ⟨rfl, hbuf, rfl, rfl, rfl⟩

end

/-! ## Memory -/

/-- A sequence in memory and a position in it. -/
structure Mem (α : Type) where
  data : List α
  pos : Nat := 0
deriving DecidableEq, Repr

def Mem.origin (m : Mem α) : Way → Nat
  | .beg => 0
  | .cur => m.pos
  | .fin => m.data.length

/-- A buffer that reads a sequence. It goes to no place outside of the sequence. -/
def memBuf [DecidableEq α] : Streambuf α (Mem α) where
  sgetn n m := ((m.data.drop m.pos).take n, { m with pos := m.pos + ((m.data.drop m.pos).take n).length })
  sbumpc m := (m.data[m.pos]?, { m with pos := if m.pos < m.data.length then m.pos + 1 else m.pos })
  sgetc m := (m.data[m.pos]?, m)
  pback c m :=
    if 0 < m.pos ∧ (c = none ∨ c = m.data[m.pos - 1]?) then (true, { m with pos := m.pos - 1 }) else (false, m)
  seekoff off way m :=
    let target := m.origin way + off
    if 0 ≤ target ∧ target ≤ m.data.length then (some target.toNat, { m with pos := target.toNat }) else (none, m)

/-- `std::getline`: what is in front of a delimiter, which is taken. Without one the end is reached. -/
def Istream.getline [DecidableEq α] (delim : α) (s : Istream (Mem α)) : List α × Istream (Mem α) :=
  if s.good then
    let rest := s.buf.data.drop s.buf.pos
    let line := rest.takeWhile (· ≠ delim)
    if line.length < rest.length then (line, { s with buf := { s.buf with pos := s.buf.pos + line.length + 1 } })
    else (line, { s with buf := { s.buf with pos := s.buf.pos + line.length }, eof := true, fail := rest.isEmpty })
  else ([], { s with fail := true })

end OpenCpi.Infra
