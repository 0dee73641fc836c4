import Mathlib.Data.Option.Basic
import OpenCpi.Properties.NumberText
import OpenCpi.StreamFs.Files

/-!
# What is written into a stream

As long as the device takes everything, the stream holds the contents of the files one behind the other, and the table
in the writer says where each of them is. The table of contents is a text whose lines have no line feed in them.
-/

namespace OpenCpi.StreamFs

open Infra
open Misc (Base text ulonglongToString checkedBase digitsToString_eq)
open Os (joinNames)
open Util (Text slash)

variable {w w' : Writer} {t t' : Draft} {s s' : Ostream} {data : Text} {name nn : Text} {op : WriterOp} {result : Result}
  {n : Nat}

/-! ## Output streams -/

theorem write_of_bad (h : s.good = false) (a : Text) : s.write a = s := by
  unfold Ostream.write
  simp [h]

theorem write_of_fits (h : s.good = true) {a : Text} (hfits : a.length ≤ s.space) :
    s.write a = { s with data := s.data ++ a, space := s.space - a.length } := by
  unfold Ostream.write
  simp [h, hfits]

theorem write_of_full (h : s.good = true) {a : Text} (hfull : s.space < a.length) :
    s.write a = { data := s.data ++ a.take s.space, space := 0, good := false } := by
  unfold Ostream.write
  simp [h, Nat.not_le.mpr hfull]

/-- Two writes are one. -/
theorem write_append (s : Ostream) (a b : Text) : (s.write a).write b = s.write (a ++ b) := by
  cases h : s.good with
  | false => rw [write_of_bad h, write_of_bad h, write_of_bad h]
  | true =>
    rcases Nat.lt_or_ge s.space a.length with hfull | hfits
    · rw [write_of_full h hfull, write_of_bad rfl, write_of_full h (by rw [List.length_append]; omega),
        List.take_append_of_le_length (Nat.le_of_lt hfull)]
    · rw [write_of_fits h hfits]
      have h' : ({ s with data := s.data ++ a, space := s.space - a.length } : Ostream).good = true := h
      rcases Nat.lt_or_ge (s.space - a.length) b.length with hfull' | hfits'
      · rw [write_of_full h' hfull', write_of_full h (by rw [List.length_append]; omega), List.take_append,
          List.take_of_length_le hfits, List.append_assoc]
      · rw [write_of_fits h' hfits', write_of_fits h (by rw [List.length_append]; omega)]
        simp [Nat.sub_sub]

/-- A stream that is good was good, and took everything. -/
theorem good_of_write {a : Text} (h : (s.write a).good = true) : s.good = true ∧ (s.write a).data = s.data ++ a := by
  cases hs : s.good with
  | false =>
    rw [write_of_bad hs, hs] at h
    cases h
  | true =>
    rcases Nat.lt_or_ge s.space a.length with hfull | hfits
    · rw [write_of_full hs hfull] at h
      cases h
    · rw [write_of_fits hs hfits]
      exact ⟨rfl, rfl⟩

/-! ## The table of contents -/

theorem ulonglongToString_eq (v : UInt64) (mindigits : UInt32) (pad : UInt8) : ulonglongToString v 10 mindigits pad =
    .ok (List.replicate (mindigits.toNat - (text 10 v.toNat).length) pad ++ text 10 v.toNat) :=
  digitsToString_eq v.toNat Base.ten mindigits.toNat pad

/-- The lines of a file. -/
def nodeText (e : Text × Node) : Text :=
  lf :: e.1 ++ lf :: text 10 e.2.pos.toNat ++ lf :: text 10 e.2.size.toNat ++ lf :: text 10 e.2.lastModified.toNat

/-- The position of the table with blanks in front of it. -/
def posText (pos : UInt64) : Text := List.replicate (16 - (text 10 pos.toNat).length) 32 ++ text 10 pos.toNat

/-- All of the table. -/
def tocText (toc : List (Text × Node)) (pos : UInt64) : Text :=
  toc.flatMap nodeText ++ (lf :: endOfToc ++ [lf]) ++ posText pos ++ [lf]

theorem dumpNode_eq (name : Text) (node : Node) (s : Ostream) :
    dumpNode name node s = .ok (s.write (nodeText (name, node))) := by
  unfold dumpNode nodeText
  simp only [ulonglongToString_eq, UInt32.toNat_zero, Nat.zero_sub, List.replicate_zero, List.nil_append]
  show Except.ok _ = Except.ok _
  simp [write_append]

theorem dumpNodes_eq (toc : List (Text × Node)) : ∀ s : Ostream,
    dumpNodes toc s = .ok (s.write (toc.flatMap nodeText)) := by
  have hnil (s : Ostream) : s.write [] = s := by
    cases h : s.good with
    | false => exact write_of_bad h []
    | true =>
      rw [write_of_fits h (Nat.zero_le _), List.append_nil]
      rfl
  induction toc with
  | nil => exact fun s => congrArg Except.ok (hnil s).symm
  | cons e toc ih =>
    intro s
    rw [dumpNodes, List.flatMap_cons, ← write_append]
    cases h : s.good with
    | false =>
      rw [write_of_bad h, write_of_bad h]
      rfl
    | true =>
      rw [if_pos rfl, dumpNode_eq]
      exact ih _

theorem dumpTOC_eq (toc : List (Text × Node)) (pos : UInt64) (s : Ostream) :
    dumpTOC toc pos s = .ok (s.write (tocText toc pos)) := by
  unfold dumpTOC
  rw [dumpNodes_eq, ulonglongToString_eq]
  show Except.ok _ = Except.ok _
  have h16 : (16 : UInt32).toNat = 16 := rfl
  simp [write_append, tocText, posText, h16]

/-! ## Files in the stream -/

/-- Where the table says that a file is. -/
def Stored (data : Text) (node : Node) (f : FileData) : Prop :=
  ∃ front back, data = front ++ f.content ++ back ∧ node.pos.toNat = front.length ∧
    node.size.toNat = f.content.length ∧ node.lastModified = f.lastModified

theorem Stored.append {node : Node} {f : FileData} (h : Stored data node f) (more : Text) :
    Stored (data ++ more) node f := by
  obtain ⟨front, back, rfl, hpos, hsize, hlm⟩ := h
  exact ⟨front, back ++ more, List.append_assoc _ _ _, hpos, hsize, hlm⟩

/-- A name that the table can hold. -/
def Plain (nn : Text) : Prop := nn.head? = some slash ∧ lf ∉ nn

def WriterOp.plain : WriterOp → Prop
  | .openWriteonly fileName => lf ∉ fileName
  | _ => True

theorem plain_joinNames (h : lf ∉ name) (hnn : joinNames [slash] name = some nn) : Plain nn := by
  cases name with
  | nil => cases hnn
  | cons c name =>
    rw [joinNames] at hnn
    by_cases hc : c = slash
    · rw [if_pos hc] at hnn
      cases hnn
      exact ⟨congrArg some hc, h⟩
    · rw [if_neg hc] at hnn
      simp at hnn
      rw [← hnn]
      refine ⟨rfl, fun hmem => ?_⟩
      rcases List.mem_cons.mp hmem with hslash | hmem
      · cases hslash
      · exact h hmem

/-- The open file of a writer, and where the next file begins. -/
def Writer.Current (w : Writer) (t : Draft) (s : Ostream) : Prop :=
  match t.file with
  | none => w.file = none ∧ w.openFiles = 0 ∧ w.pos.toNat = s.data.length ∧
      ∀ k, Option.Rel (Stored s.data) (w.toc.find k) (t.files.find k)
  | some f => w.file = some { name := f.1, payload := .ofNat f.2.length } ∧ w.openFiles = 1 ∧
      t.files.find f.1 = none ∧ w.toc.find f.1 = some { pos := w.pos } ∧
      (∃ front, s.data = front ++ f.2 ∧ w.pos.toNat = front.length) ∧
      ∀ k, f.1 ≠ k → Option.Rel (Stored s.data) (w.toc.find k) (t.files.find k)

/-- A writer whose stream is good, for the files that it writes. -/
structure Writer.Holds (w : Writer) (t : Draft) : Prop where
  stream : ∃ s, w.stream = some s ∧ s.good = true ∧ w.Current t s
  cwd : w.cwd = [slash]
  plain : ∀ k, (w.toc.find k).isSome → Plain k

/-- A writer whose device took everything, which is not too much. -/
def Writer.Fine (w : Writer) : Prop := ∃ s, w.stream = some s ∧ s.good = true ∧ s.data.length < 2 ^ 63

/-- Only `write` changes the stream. -/
theorem step_stream (hstep : w.step op = some (result, w')) :
    w'.stream = w.stream ∨ ∃ s data, w.stream = some s ∧ w'.stream = some (s.write data) := by
  cases op with
  | openWriteonly fileName =>
    refine Or.inl ?_
    simp only [Writer.step, Writer.openWriteonly] at hstep
    split_ifs at hstep
    · cases hstep
      rfl
    · split at hstep
      · cases hstep
      · split_ifs at hstep
        · cases hstep
          rfl
        · obtain ⟨nn, -, hnn⟩ := Option.map_eq_some_iff.mp hstep
          split_ifs at hnn <;> cases hnn <;> rfl
  | write data =>
    simp only [Writer.step, Writer.xsputn] at hstep
    split at hstep
    · next f s _ hs =>
      split_ifs at hstep
      · cases hstep
        exact Or.inl rfl
      · cases hstep
        exact Or.inr ⟨s, data, hs, rfl⟩
      · cases hstep
        exact Or.inr ⟨s, data, hs, rfl⟩
    · cases hstep
  | close now =>
    refine Or.inl ?_
    simp only [Writer.step, Writer.close] at hstep
    split at hstep
    · split at hstep
      · cases hstep
      · split_ifs at hstep <;> cases hstep <;> rfl
    · cases hstep

/-- The device took everything before. -/
theorem fine_of_step (hstep : w.step op = some (result, w')) (h : w'.Fine) : w.Fine := by
  obtain ⟨s', hs', hgood', hlen⟩ := h
  rcases step_stream hstep with hsame | ⟨s, data, hs, hwrite⟩
  · exact ⟨s', hsame.symm.trans hs', hgood', hlen⟩
  · obtain rfl : s.write data = s' := Option.some.inj (hwrite.symm.trans hs')
    obtain ⟨hgood, hdata⟩ := good_of_write hgood'
    rw [hdata, List.length_append] at hlen
    exact ⟨s, hs, hgood, by omega⟩

theorem rel_isSome {α β : Type} {r : α → β → Prop} {x : Option α} {y : Option β} (h : Option.Rel r x y) :
    x.isSome = y.isSome := by
  cases h <;> rfl

theorem rel_mono {α β : Type} {r r' : α → β → Prop} {x : Option α} {y : Option β} (h : Option.Rel r x y)
    (hr : ∀ a b, r a b → r' a b) : Option.Rel r' x y := by
  cases h with
  | none => exact .none
  | some h => exact .some (hr _ _ h)

/-- **A step of the writer** is one of the draft, as long as the device takes everything. -/
theorem Writer.Holds.step (h : w.Holds t) (hop : op.plain) (hstep : w.step op = some (result, w')) (hfine : w'.Fine) :
    ∃ t', t.step op = some (result, t') ∧ w'.Holds t' := by
  obtain ⟨⟨s, hs, hgood, hcurrent⟩, hcwd, hplain⟩ := h
  cases op with
  | openWriteonly fileName =>
    simp only [Writer.step, Writer.openWriteonly, hs, hgood, hcwd] at hstep
    unfold Writer.Current at hcurrent
    cases hfile : t.file with
    | some f =>
      rw [hfile] at hcurrent
      obtain ⟨hf, hopen, hrest⟩ := hcurrent
      rw [if_pos (by rw [hopen]; exact Nat.one_ne_zero)] at hstep
      cases hstep
      refine ⟨t, ?_, ⟨⟨s, hs, hgood, ?_⟩, hcwd, hplain⟩⟩
      · rw [Draft.step, hfile]
        rfl
      · unfold Writer.Current
        rw [hfile]
        exact ⟨hf, hopen, hrest⟩
    | none =>
      rw [hfile] at hcurrent
      obtain ⟨hf, hopen, hpos, hlisted⟩ := hcurrent
      rw [if_neg (not_not.mpr hopen), if_neg (by decide : ¬(!true) = true)] at hstep
      obtain ⟨nn, hnn, hresult⟩ := Option.map_eq_some_iff.mp hstep
      rw [Draft.step, hfile, Option.isSome_none, if_neg Bool.false_ne_true, hnn, Option.map_some, ← rel_isSome (hlisted nn)]
      by_cases hexists : (w.toc.find nn).isSome
      · rw [if_pos hexists] at hresult ⊢
        cases hresult
        refine ⟨t, rfl, ⟨⟨s, hs, hgood, ?_⟩, hcwd, hplain⟩⟩
        unfold Writer.Current
        rw [hfile]
        exact ⟨hf, hopen, hpos, hlisted⟩
      · rw [if_neg hexists] at hresult ⊢
        cases hresult
        have hnone : t.files.find nn = none := by
          rwa [rel_isSome (hlisted nn), Option.isSome_iff_ne_none, not_not] at hexists
        refine ⟨_, rfl, ⟨s, rfl, hgood, rfl, ?_, hnone, ?_, ⟨s.data, (List.append_nil _).symm, hpos⟩, ?_⟩, rfl, ?_⟩
        · show w.openFiles + 1 = 1
          rw [hopen]
        · exact (SortedMap.find_insert w.toc nn nn _).trans (if_pos rfl)
        · intro k hk
          show Option.Rel _ ((w.toc.insert nn _).find k) _
          rw [SortedMap.find_insert, if_neg hk]
          exact hlisted k
        · intro k hk
          have hk : ((w.toc.insert nn { pos := w.pos }).find k).isSome := hk
          rw [SortedMap.find_insert] at hk
          split_ifs at hk with heq
          · exact heq ▸ plain_joinNames hop hnn
          · exact hplain k hk
  | write data =>
    simp only [Writer.step, Writer.xsputn, hs] at hstep
    unfold Writer.Current at hcurrent
    cases hfile : t.file with
    | none =>
      rw [hfile] at hcurrent
      rw [hcurrent.1] at hstep
      cases hstep
    | some f =>
      rw [hfile] at hcurrent
      obtain ⟨hf, hopen, hnone, hnode, ⟨front, hdata, hpos⟩, hlisted⟩ := hcurrent
      rw [hf] at hstep
      dsimp only at hstep
      have hdraft : t.step (.write data) = some (.done, { t with file := some (f.1, f.2 ++ data) }) := by
        rw [Draft.step, hfile]
        rfl
      split_ifs at hstep with hempty htook
      · cases hstep
        obtain rfl : data = [] := hempty.resolve_left (by decide)
        refine ⟨_, hdraft, ⟨⟨s, hs, hgood, ?_⟩, hcwd, hplain⟩⟩
        show w.file = _ ∧ _
        rw [List.append_nil]
        exact ⟨hf, hopen, hnone, hnode, ⟨front, hdata, hpos⟩, hlisted⟩
      · cases hstep
        have hmore := (good_of_write htook).2
        refine ⟨_, hdraft, ⟨⟨s.write data, rfl, htook, ?_⟩, hcwd, hplain⟩⟩
        refine ⟨?_, hopen, hnone, hnode, ⟨front, ?_, hpos⟩, fun k hk => ?_⟩
        · show some _ = some _
          rw [List.length_append, UInt64.ofNat_add]
        · rw [hmore, hdata, List.append_assoc]
        · rw [hmore]
          exact rel_mono (hlisted k hk) fun _ _ hstored => hstored.append data
      · cases hstep
        obtain ⟨s', hs', hgood', -⟩ := hfine
        have hsame : s.write data = s' := Option.some.inj hs'
        exact absurd (hsame ▸ hgood') htook
  | close now =>
    simp only [Writer.step, Writer.close, hs] at hstep
    unfold Writer.Current at hcurrent
    cases hfile : t.file with
    | none =>
      rw [hfile] at hcurrent
      rw [hcurrent.1] at hstep
      cases hstep
    | some f =>
      rw [hfile] at hcurrent
      obtain ⟨hf, hopen, hnone, hnode, ⟨front, hdata, hpos⟩, hlisted⟩ := hcurrent
      rw [hf] at hstep
      dsimp only at hstep
      rw [hnode] at hstep
      dsimp only at hstep
      split_ifs at hstep with hbig hbad
      · rw [hgood] at hbad
        cases hbad
      · cases hstep
        obtain ⟨s', hs', -, hlen⟩ := hfine
        have hsame : s = s' := Option.some.inj hs'
        rw [← hsame, hdata, List.length_append] at hlen
        have hpayload : (UInt64.ofNat f.2.length).toNat = f.2.length := UInt64.toNat_ofNat_of_lt (Nat.lt_of_le_of_lt (Nat.le_add_left _ _) (Nat.lt_trans hlen (by decide)))
        refine ⟨{ files := t.files.insert f.1 { content := f.2, lastModified := now } },
          by rw [Draft.step, hfile]; rfl, ⟨⟨s, rfl, hgood, rfl, ?_, ?_, fun k => ?_⟩, hcwd, fun k hk => ?_⟩⟩
        · show w.openFiles - 1 = 0
          rw [hopen]
        · show (w.pos + .ofNat f.2.length).toNat = s.data.length
          rw [UInt64.toNat_add, hpayload, hpos, hdata, List.length_append]
          exact Nat.mod_eq_of_lt (by omega)
        · show Option.Rel _ ((w.toc.insert f.1 _).find k) ((t.files.insert f.1 _).find k)
          rw [SortedMap.find_insert, SortedMap.find_insert]
          split_ifs with hk
          · exact .some ⟨front, [], hdata.trans (List.append_nil _).symm, hpos, hpayload, rfl⟩
          · exact hlisted k hk
        · have hk : ((w.toc.insert f.1 _).find k).isSome := hk
          rw [SortedMap.find_insert] at hk
          split_ifs at hk with heq
          · exact heq ▸ hplain f.1 (by rw [hnode]; rfl)
          · exact hplain k hk

/-! ## Runs -/

theorem run_cons {ops : List WriterOp} {results : List Result} (h : w.run (op :: ops) = some (results, w')) :
    ∃ result w₁ rest, w.step op = some (result, w₁) ∧ w₁.run ops = some (rest, w') ∧ results = result :: rest := by
  obtain ⟨⟨result, w₁⟩, hstep, h⟩ := Option.bind_eq_some_iff.mp h
  obtain ⟨⟨rest, w₂⟩, hrun, h⟩ := Option.bind_eq_some_iff.mp h
  cases h
  exact ⟨result, w₁, rest, hstep, hrun, rfl⟩

theorem fine_of_run : ∀ (ops : List WriterOp) {w : Writer} {results : List Result},
    w.run ops = some (results, w') → w'.Fine → w.Fine
  | [], w, _, h, hfine => by
    cases h
    exact hfine
  | op :: ops, w, _, h, hfine => by
    obtain ⟨result, w₁, rest, hstep, hrun, -⟩ := run_cons h
    exact fine_of_step hstep (fine_of_run ops hrun hfine)

/-- A run of the writer is one of the draft. -/
theorem Writer.Holds.run : ∀ (ops : List WriterOp) {w : Writer} {t : Draft} {results : List Result}, w.Holds t →
    (∀ op ∈ ops, op.plain) → w.run ops = some (results, w') → w'.Fine →
      ∃ t', t.run ops = some (results, t') ∧ w'.Holds t'
  | [], w, t, _, hw, _, h, _ => by
    cases h
    exact ⟨t, rfl, hw⟩
  | op :: ops, w, t, _, hw, hplain, h, hfine => by
    obtain ⟨result, w₁, rest, hstep, hrun, rfl⟩ := run_cons h
    obtain ⟨t₁, ht₁, hw₁⟩ := hw.step (hplain op List.mem_cons_self) hstep (fine_of_run ops hrun hfine)
    obtain ⟨t', ht', hw'⟩ := hw₁.run ops (fun op hop => hplain op (List.mem_cons_of_mem _ hop)) hrun hfine
    refine ⟨t', ?_, hw'⟩
    rw [Draft.run, ht₁]
    show (t₁.run ops >>= fun x => some (result :: x.1, x.2)) = _
    rw [ht']
    rfl

/-- A writer that was opened has nothing in its stream. -/
theorem holds_openFs {space : Nat} (h : ({} : Writer).openFs space = some (result, w)) : w.Holds {} := by
  cases h
  exact ⟨⟨{ space }, rfl, rfl, rfl, rfl, rfl, fun _ => .none⟩, rfl, fun _ hk => Bool.noConfusion hk⟩

/-- A stream with room for the table is closed. -/
theorem closeFs_of_good (hopen : w.openFiles = 0) (hs : w.stream = some s)
    (hgood : (s.write (tocText w.toc.entries w.pos)).good = true) :
    w.closeFs = some (.closed (s.write (tocText w.toc.entries w.pos)).data, { w with stream := none }) := by
  unfold Writer.closeFs
  rw [if_neg (not_not.mpr hopen), hs]
  dsimp only
  rw [dumpTOC_eq]
  dsimp only
  rw [if_pos hgood]

/-- What is in a stream when it is closed: the files and the table. -/
theorem closeFs_closed {image : Text} (h : w.closeFs = some (.closed image, w')) :
    w.openFiles = 0 ∧ ∃ s, w.stream = some s ∧ s.good = true ∧ image = s.data ++ tocText w.toc.entries w.pos := by
  unfold Writer.closeFs at h
  split_ifs at h with hopen
  cases hs : w.stream with
  | none =>
    rw [hs] at h
    cases h
  | some s =>
    rw [hs] at h
    dsimp only at h
    rw [dumpTOC_eq] at h
    dsimp only at h
    split_ifs at h with hgood
    · cases h
      obtain ⟨hgood, hdata⟩ := good_of_write hgood
      exact ⟨not_not.mp hopen, s, rfl, hgood, hdata⟩
    · cases h

end OpenCpi.StreamFs
