import OpenCpi.Properties.TextRoundTrip

/-!
# Values of all types come back from their texts

Each base type reads the items that it prints. For structs and types this is an induction on the type. The names
of members and the values of enums must be texts that are found as they are and told apart.
-/

namespace OpenCpi.Value

open Infra

variable {after rest : Text}

/-! ## Scalars, strings and enums -/

/-- A base type whose parser looks at nothing but what was printed. -/
theorem inverse_of_tight {base : Base Datum} {p : Printer} {ok : Datum → Prop} (hstruct : base.isStruct = false)
    (hprinter : p.isStruct = false) (htight : ∀ x, ok x → Tight (p.print x).1)
    (hparse : ∀ x rest, ok x → Ended rest → ∃ n, base.parse (p.print x).1 rest = (.ok x, n))
    (hnull : ∀ x, ok x → (p.print x).2 = true → x = base.zero) : Inverse base p ok Eq where
  isStruct := hprinter.trans hstruct.symm
  tight _ := htight
  closes x hx := closes_of_whole (htight x hx).whole
  parse x rest hx hrest := by
    obtain ⟨n, hn⟩ := hparse x rest hx hrest
    exact ⟨x, n, hn, rfl⟩
  null := hnull

theorem tight_unparseBool (b : Bool) : Tight (unparseBool b).1 := by
  cases b
  · exact tight_plain (List.cons_ne_nil _ _) (plain_of_all rfl)
  · exact tight_plain (List.cons_ne_nil _ _) (plain_of_all rfl)

theorem parseBool_unparseBool (b : Bool) : parseBool (unparseBool b).1 = .ok b := by
  cases b <;> decide

/-- A number of the C library that is read from what is left of its text. -/
structure Restored (asprintf : Scalar → Nat → Text) (strtod : Scalar → Text → Option Nat) (t : Scalar) (bits : Nat) :
    Prop where
  ne_nil : dropZeros (asprintf t bits) ≠ []
  plain : ∀ c ∈ dropZeros (asprintf t bits), Plain c
  read : ∀ rest, Ended rest → strtod t (dropZeros (asprintf t bits) ++ rest) = some bits

/-- The items of a scalar type. -/
def Scalar.Item (asprintf : Scalar → Nat → Text) (strtod : Scalar → Text → Option Nat) : Scalar → Datum → Prop
  | .bool, x => ∃ b, x = .bool b
  | .char, x => ∃ c, x = .char c
  | .double, x => ∃ bits, x = .float bits ∧ Restored asprintf strtod .double bits
  | .float, x => ∃ bits, x = .float bits ∧ Restored asprintf strtod .float bits
  | t, x => ∃ v, x = .int v ∧ t.holds v

theorem inverse_floating (asprintf : Scalar → Nat → Text) (strtod : Scalar → Text → Option Nat) (t : Scalar)
    (error : String) : Inverse
      { zero := .float 0, parse := fun text after => single .float (parseFloating strtod t error text after) }
      (t.printer asprintf) (fun x => ∃ bits, x = .float bits ∧ Restored asprintf strtod t bits) Eq := by
  refine inverse_of_tight rfl rfl ?_ ?_ ?_
  · rintro _ ⟨bits, rfl, h⟩
    exact tight_plain h.ne_nil h.plain
  · rintro _ rest ⟨bits, rfl, h⟩ hrest
    refine ⟨0, ?_⟩
    show single Datum.float (parseFloating strtod t error (dropZeros (asprintf t bits)) rest) = _
    rw [parseFloating, h.read rest hrest]
    rfl
  · rintro _ ⟨bits, rfl, -⟩ hnull
    exact congrArg Datum.float (eq_of_beq hnull)

theorem inverse_integer (asprintf : Scalar → Nat → Text) {t : Scalar} (ht : t.isNumber = true) :
    Inverse t.intBase (t.printer asprintf) (fun x => ∃ v, x = .int v ∧ t.holds v) Eq := by
  refine inverse_of_tight rfl rfl ?_ ?_ ?_
  · rintro _ ⟨v, rfl, -⟩
    exact tight_integerText v
  · rintro _ rest ⟨v, rfl, hv⟩ hrest
    refine ⟨0, ?_⟩
    show single Datum.int (t.parseInteger (integerText v) rest) = _
    rw [parseInteger_integerText ht hv hrest]
    rfl
  · rintro _ ⟨v, rfl, -⟩ hnull
    exact congrArg Datum.int (eq_of_beq hnull)

theorem Scalar.inverse (asprintf : Scalar → Nat → Text) (strtod : Scalar → Text → Option Nat) (t : Scalar) :
    Inverse (t.base strtod) (t.printer asprintf) (t.Item asprintf strtod) Eq := by
  cases t with
  | bool =>
    refine inverse_of_tight rfl rfl ?_ ?_ ?_
    · rintro _ ⟨b, rfl⟩
      exact tight_unparseBool b
    · rintro _ rest ⟨b, rfl⟩ -
      refine ⟨0, ?_⟩
      show single Datum.bool (parseBool (unparseBool b).1) = _
      rw [parseBool_unparseBool]
      rfl
    · rintro _ ⟨b, rfl⟩ hnull
      exact congrArg Datum.bool (Bool.not_eq_true' b ▸ hnull)
  | char =>
    refine inverse_of_tight rfl rfl ?_ ?_ ?_
    · rintro _ ⟨c, rfl⟩
      have hskip := skipSpaces_charText c []
      rw [List.append_nil] at hskip
      exact tight_charText (s := []) rfl hskip
    · rintro _ rest ⟨c, rfl⟩ -
      refine ⟨0, ?_⟩
      show single Datum.char (parseChar (charText c)) = _
      rw [parseChar_charText]
      rfl
    · rintro _ ⟨c, rfl⟩ hnull
      exact congrArg Datum.char (eq_of_beq hnull)
  | double => exact inverse_floating asprintf strtod .double "bad Double value"
  | float => exact inverse_floating asprintf strtod .float "bad Float value"
  | short => exact inverse_integer asprintf (t := .short) rfl
  | long => exact inverse_integer asprintf (t := .long) rfl
  | uchar => exact inverse_integer asprintf (t := .uchar) rfl
  | ulong => exact inverse_integer asprintf (t := .ulong) rfl
  | ushort => exact inverse_integer asprintf (t := .ushort) rfl
  | longlong => exact inverse_integer asprintf (t := .longlong) rfl
  | ulonglong => exact inverse_integer asprintf (t := .ulonglong) rfl

theorem inverse_string (stringLength : Nat) : Inverse (stringBase stringLength) stringPrinter
    (fun x => ∃ chars, x = .string chars ∧ (stringLength ≠ 0 → chars.length ≤ stringLength)) Eq := by
  refine inverse_of_tight rfl rfl ?_ ?_ ?_
  · rintro _ ⟨chars, rfl, -⟩
    exact tight_unparseString chars
  · rintro _ rest ⟨chars, rfl, hlen⟩ -
    obtain ⟨n, hn⟩ := parseString_text hlen
    refine ⟨n, ?_⟩
    unfold stringBase stringPrinter
    dsimp only
    rw [hn]
  · rintro _ ⟨chars, rfl, -⟩ hnull
    change (unparseString chars).2 = true at hnull
    unfold unparseString at hnull
    split_ifs at hnull with hnil
    rw [hnil]
    rfl

/-- Texts that are told apart whatever their case, each found as it is. -/
structure EnumNames (enums : List Text) : Prop where
  ne_nil : ∀ e ∈ enums, e ≠ []
  plain : ∀ e ∈ enums, ∀ c ∈ e, Plain c
  distinct : (enums.map (·.map lower)).Nodup

theorem parseEnum_getD {enums : List Text} (h : EnumNames enums) {n : Nat} (hn : n < enums.length) :
    parseEnum enums (enums.getD n []) = .ok n := by
  have hget : enums.getD n [] = enums[n] := by
    rw [List.getD_eq_getElem?_getD, List.getElem?_eq_getElem hn, Option.getD_some]
  have hfind : enums.findIdx? (fun e => e.map lower == (enums.getD n []).map lower) = some n := by
    rw [List.findIdx?_eq_some_iff_getElem]
    refine ⟨hn, by rw [hget]; exact beq_self_eq_true _, fun j hj => ?_⟩
    rw [hget]
    intro heq
    have hne := (List.nodup_iff_pairwise_ne.mp h.distinct)
    rw [List.pairwise_map, List.pairwise_iff_getElem] at hne
    exact hne j n (Nat.lt_trans hj hn) hn hj (eq_of_beq heq)
  rw [parseEnum, hfind]

theorem inverse_enum {enums : List Text} (h : EnumNames enums) : Inverse (enumBase enums) (enumPrinter enums)
    (fun x => ∃ n, x = .enum n ∧ n < enums.length) Eq := by
  have hmem {n : Nat} (hn : n < enums.length) : enums.getD n [] ∈ enums := by
    rw [List.getD_eq_getElem?_getD, List.getElem?_eq_getElem hn, Option.getD_some]
    exact List.getElem_mem hn
  refine inverse_of_tight rfl rfl ?_ ?_ ?_
  · rintro _ ⟨n, rfl, hn⟩
    exact tight_plain (h.ne_nil _ (hmem hn)) (h.plain _ (hmem hn))
  · rintro _ rest ⟨n, rfl, hn⟩ -
    refine ⟨0, ?_⟩
    show single Datum.enum (parseEnum enums (enums.getD n [])) = _
    rw [parseEnum_getD h hn]
    rfl
  · rintro _ ⟨n, rfl, -⟩ hnull
    exact congrArg Datum.enum (eq_of_beq hnull)

/-! ## Members of structs -/

/-- A member of a struct is printed and read by functions that belong together. -/
structure FieldInverse (f : Field) (pf : PrintedField) (ok : List Datum → Prop)
    (same : List Datum → List Datum → Prop) : Prop where
  name : f.name = pf.name
  needsComma : f.needsComma = pf.needsComma
  closes : ∀ items, ok items → closes 0 false (pf.unparse items) = true
  tight : pf.needsComma = false → ∀ items, ok items → Tight (pf.unparse items)
  parse : ∀ items rest, ok items → Ended rest → ∃ ys, f.parse (pf.unparse items) rest = .ok ys ∧ same items ys

/-- The text of a member: its name, a blank and its value. -/
def PrintedField.text (pf : PrintedField) (items : List Datum) : Text :=
  pf.name ++ 32 :: delimited pf.needsComma (pf.unparse items)

section

variable {f : Field} {pf : PrintedField} {ok : List Datum → Prop} {same : List Datum → List Datum → Prop}
  {items : List Datum}

theorem tight_delimited (h : FieldInverse f pf ok same) (hok : ok items) :
    Tight (delimited pf.needsComma (pf.unparse items)) := by
  cases hcomma : pf.needsComma with
  | true => exact tight_braced (h.closes items hok)
  | false => exact h.tight hcomma items hok

theorem tight_fieldText (h : FieldInverse f pf ok same) (hok : ok items) (hne : pf.name ≠ [])
    (hplain : ∀ c ∈ pf.name, Plain c) : Tight (pf.text items) := by
  have htext : pf.text items = (pf.name ++ [32]) ++ delimited pf.needsComma (pf.unparse items) := by
    rw [PrintedField.text, List.append_assoc, List.singleton_append]
  rw [htext]
  refine tight_behind (tight_delimited h hok) ((whole_append [32] (whole_plain hplain)).trans rfl) ?_
  obtain ⟨c, s, hname⟩ := List.exists_cons_of_ne_nil hne
  rw [hname] at hplain ⊢
  exact skipSpaces_of_head (hplain c List.mem_cons_self).1 _

/-- The name of a field stands in front of a blank if it is the whole name there. -/
theorem named_iff (name tail : Text) (hf : ∀ c ∈ f.name, Plain c) (hname : ∀ c ∈ name, Plain c) :
    f.named (name ++ 32 :: tail) = true ↔ f.name = name := by
  unfold Field.named
  generalize f.name = own at hf
  induction own generalizing name with
  | nil =>
    cases name with
    | nil => exact iff_of_true rfl rfl
    | cons d name => simp [(hname d List.mem_cons_self).1]
  | cons c own ih =>
    obtain ⟨hc, hown⟩ := List.forall_mem_cons.mp hf
    cases name with
    | nil =>
      have hblank : c ≠ 32 := by
        rintro rfl
        cases hc.1
      simp [hblank]
    | cons d name =>
      have hrest := ih name (List.forall_mem_cons.mp hname).2 hown
      rw [List.cons_append, List.isPrefixOf, Bool.and_assoc, Bool.and_eq_true, List.length_cons, List.drop_succ_cons,
        hrest, beq_iff_eq, List.cons.injEq]

/-- A value is read from behind the name of its member. -/
theorem parseValue_fieldText (h : FieldInverse f pf ok same) (hok : ok items) (hrest : Ended rest) :
    ∃ ys, f.parseValue (pf.text items) rest = .ok ys ∧ same items ys := by
  have hlen : ¬(pf.text items).length < f.name.length := by
    rw [h.name, PrintedField.text, List.length_append]
    omega
  have hvalue : skipSpaces ((pf.text items).drop f.name.length) = delimited pf.needsComma (pf.unparse items) := by
    rw [h.name, PrintedField.text, List.drop_append_length]
    exact (tight_delimited h hok).skip
  unfold Field.parseValue
  rw [if_neg hlen, hvalue, h.needsComma]
  cases hcomma : pf.needsComma with
  | true =>
    obtain ⟨ys, hys, hsame⟩ := h.parse items (125 :: rest) hok (ended_close rest)
    refine ⟨ys, ?_, hsame⟩
    rw [if_pos rfl, delimited, if_pos rfl, inBraces_braced]
    exact hys
  | false =>
    obtain ⟨ys, hys, hsame⟩ := h.parse items rest hok hrest
    refine ⟨ys, ?_, hsame⟩
    rw [if_neg Bool.false_ne_true, delimited, if_neg Bool.false_ne_true]
    exact hys

end

/-- The texts of the members that a value has. -/
def memberTexts : List PrintedField → List (Option (List Datum)) → List Text
  | [], _ => []
  | pf :: fields, val =>
    match val.headD none with
    | none => memberTexts fields val.tail
    | some items => pf.text items :: memberTexts fields val.tail

theorem structText_true (fields : List PrintedField) (val : List (Option (List Datum))) :
    (structText fields val true).1 = ending (others (memberTexts fields val)) ∧
      (structText fields val true).2 = false := by
  induction fields generalizing val with
  | nil => exact ⟨rfl, rfl⟩
  | cons pf fields ih =>
    rw [structText, memberTexts]
    cases val.headD none with
    | none => exact ih val.tail
    | some items =>
      refine ⟨?_, (ih val.tail).2⟩
      rw [others, ending, joined_cons, ← (ih val.tail).1, PrintedField.text]
      simp

/-- **The text of a struct**: those of its members, joined by commas. It is null without any. -/
theorem structText_eq (fields : List PrintedField) (val : List (Option (List Datum))) :
    (structText fields val false).1 = joined (memberTexts fields val) ∧
      ((structText fields val false).2 = true ↔ memberTexts fields val = []) := by
  induction fields generalizing val with
  | nil => exact ⟨rfl, iff_of_true rfl rfl⟩
  | cons pf fields ih =>
    rw [structText, memberTexts]
    cases val.headD none with
    | none => exact ih val.tail
    | some items =>
      obtain ⟨htext, hnull⟩ := structText_true fields val.tail
      refine ⟨?_, ?_⟩
      · simp [htext, joined_cons, PrintedField.text]
      · simp [hnull]

/-! ## Values of a type -/

section

variable (asprintf : Scalar → Nat → Text) (strtod : Scalar → Text → Option Nat)

mutual

/-- The items of a value of the type of a member. -/
def Member.Item : Member → Datum → Prop
  | .scalar _ t, x => t.Item asprintf strtod x
  | .string _ stringLength, x => ∃ chars, x = .string chars ∧ (stringLength ≠ 0 → chars.length ≤ stringLength)
  | .enum _ enums, x => ∃ n, x = .enum n ∧ n < enums.length
  | .struct _ ms, x => ∃ val, x = .struct val ∧ MembersItems ms val
  | .type _ t, x => ∃ val, x = .type val ∧ t.decl.Shaped val ∧ ∀ y ∈ val, t.Item y

/-- The members that a struct has. -/
def MembersItems : List Member → List (Option (List Datum)) → Prop
  | [], _ => True
  | m :: ms, val =>
    (∀ items, val.headD none = some items → m.decl.Shaped items ∧ ∀ y ∈ items, m.Item y) ∧ MembersItems ms val.tail

end

/-- The values of the type of a member. -/
def Member.Items (m : Member) (items : List Datum) : Prop :=
  m.decl.Shaped items ∧ ∀ x ∈ items, m.Item asprintf strtod x

end

mutual

/-- What an item may come back as: structs have the same members, if any. -/
def Member.Same : Member → Datum → Datum → Prop
  | .scalar _ _, x, y | .string _ _, x, y | .enum _ _, x, y => x = y
  | .struct _ ms, x, y => ∃ val val', x = .struct val ∧ y = .struct val' ∧ MembersSame ms val val'
  | .type _ t, x, y => ∃ val val', x = .type val ∧ y = .type val' ∧ List.Forall₂ t.Same val val'

def MembersSame : List Member → List (Option (List Datum)) → List (Option (List Datum)) → Prop
  | [], _, _ => True
  | m :: ms, val, val' =>
    Option.Rel (List.Forall₂ m.Same) (val.headD none) (val'.headD none) ∧ MembersSame ms val.tail val'.tail

end

/-- The names of the members of a struct. -/
structure FieldNames (names : List Text) : Prop where
  ne_nil : ∀ name ∈ names, name ≠ []
  plain : ∀ name ∈ names, ∀ c ∈ name, Plain c
  distinct : names.Nodup

mutual

/-- The names in a type can be told apart. -/
def Member.Named : Member → Prop
  | .scalar _ _ | .string _ _ => True
  | .enum _ enums => EnumNames enums
  | .struct _ ms => FieldNames (ms.map fun m => m.decl.name) ∧ MembersNamed ms
  | .type _ t => t.Named

def MembersNamed : List Member → Prop
  | [] => True
  | m :: ms => m.Named ∧ MembersNamed ms

end

/-! ## Structs -/

section

variable (asprintf : Scalar → Nat → Text) (strtod : Scalar → Text → Option Nat)

def Member.field (m : Member) : Field :=
  ⟨m.decl.name, needsComma m.decl (m.base strtod), parseNew m.decl (m.base strtod)⟩

def Member.printed (m : Member) : PrintedField :=
  ⟨m.decl.name, printsCommas m.decl (m.printer asprintf), Value.unparse m.decl (m.printer asprintf)⟩

theorem memberFields_eq (ms : List Member) : memberFields strtod ms = ms.map (·.field strtod) := by
  induction ms with
  | nil => rfl
  | cons m ms ih =>
    rw [memberFields, ih]
    rfl

theorem memberPrinters_eq (ms : List Member) : memberPrinters asprintf ms = ms.map (·.printed asprintf) := by
  induction ms with
  | nil => rfl
  | cons m ms ih =>
    rw [memberPrinters, ih]
    rfl

/-- A member whose items are read back as a field of a struct. -/
def Member.Restores (m : Member) : Prop :=
  FieldInverse (m.field strtod) (m.printed asprintf) (m.Items asprintf strtod) (List.Forall₂ m.Same)

variable {asprintf strtod}

/-- The member that a text names. -/
theorem findIdx_field (strtod : Scalar → Text → Option Nat) {pre ms : List Member} {m : Member}
    (hnames : FieldNames ((pre ++ m :: ms).map fun m => m.decl.name)) (tail : Text) :
    ((pre ++ m :: ms).map (·.field strtod)).findIdx? (·.named (m.decl.name ++ 32 :: tail)) = some pre.length := by
  have hplain (n : Member) (hn : n ∈ pre ++ m :: ms) : ∀ c ∈ n.decl.name, Plain c :=
    hnames.plain _ (List.mem_map_of_mem hn)
  have hm : m ∈ pre ++ m :: ms := List.mem_append_right _ List.mem_cons_self
  rw [List.findIdx?_map, List.findIdx?_append]
  have hpre : pre.findIdx? ((fun f : Field => f.named (m.decl.name ++ 32 :: tail)) ∘ (·.field strtod)) = none := by
    rw [List.findIdx?_eq_none_iff]
    intro n hn
    refine Bool.eq_false_iff.mpr fun h => ?_
    have heq : n.decl.name = m.decl.name :=
      (named_iff _ tail (hplain n (List.mem_append_left _ hn)) (hplain m hm)).mp h
    have hdistinct := hnames.distinct
    rw [List.map_append, List.nodup_append] at hdistinct
    exact hdistinct.2.2 _ (List.mem_map_of_mem hn) _ (List.mem_map_of_mem List.mem_cons_self) heq
  have hhere : ((fun f : Field => f.named (m.decl.name ++ 32 :: tail)) ∘ (·.field strtod)) m = true :=
    (named_iff _ tail (hplain m hm) (hplain m hm)).mpr rfl
  rw [hpre, List.findIdx?_cons, if_pos hhere]
  simp

/-- One turn: the member that the text names gets its value. -/
theorem structLoop_turn {pre ms : List Member} {m : Member} {items ys : List Datum} {sv : List (Option (List Datum))}
    (hnames : FieldNames ((pre ++ m :: ms).map fun m => m.decl.name))
    (htight : Tight ((m.printed asprintf).text items)) (hnone : sv.getD pre.length none = none) (rest : Option Text)
    (hys : (m.field strtod).parseValue ((m.printed asprintf).text items) (ending rest ++ after) = .ok ys) (fuel : Nat) :
    structLoop ((pre ++ m :: ms).map (·.field strtod)) after (fuel + 1) sv ((m.printed asprintf).text items ++ ending rest) =
      structLoop ((pre ++ m :: ms).map (·.field strtod)) after fuel (sv.set pre.length (some ys)) (rest.getD []) := by
  have hfind := findIdx_field strtod hnames
    (delimited (m.printed asprintf).needsComma ((m.printed asprintf).unparse items) ++ (ending rest ++ after))
  have htext : (m.printed asprintf).text items ++ ending rest ++ after = m.decl.name ++
      32 :: (delimited (m.printed asprintf).needsComma ((m.printed asprintf).unparse items) ++ (ending rest ++ after)) := by
    rw [List.append_assoc, PrintedField.text, List.append_assoc, List.cons_append]
    rfl
  have hget : ((pre ++ m :: ms).map (·.field strtod))[pre.length]? = some (m.field strtod) := by
    rw [List.getElem?_map, List.getElem?_append_right (Nat.le_refl _), Nat.sub_self]
    rfl
  rw [structLoop, if_neg (List.append_ne_nil_of_left_ne_nil htight.ne_nil _), htight.found]
  dsimp only
  rw [if_neg htight.ne_nil, htext, hfind]
  dsimp only
  rw [hnone, hget]
  show (do
    let v ← (m.field strtod).parseValue ((m.printed asprintf).text items) (ending rest ++ after)
    structLoop _ after fuel (sv.set pre.length (some v)) (rest.getD [])) = _
  rw [hys]
  rfl

/-- **The loop of `parseStruct`** over the texts of members that come last in the struct. The others keep what they
have. -/
theorem structLoop_text (hafter : Ended after) : ∀ (ms pre : List Member) (val sv : List (Option (List Datum)))
    (fuel : Nat), FieldNames ((pre ++ ms).map fun m => m.decl.name) → (∀ m ∈ ms, m.Restores asprintf strtod) →
    MembersItems asprintf strtod ms val → sv.length = (pre ++ ms).length → (∀ i, pre.length ≤ i → sv.getD i none = none) →
    (memberTexts (ms.map (·.printed asprintf)) val).length ≤ fuel →
    ∃ sv', structLoop ((pre ++ ms).map (·.field strtod)) after fuel sv
        (joined (memberTexts (ms.map (·.printed asprintf)) val)) = .ok sv' ∧
      (∀ i < pre.length, sv'.getD i none = sv.getD i none) ∧ MembersSame ms val (sv'.drop pre.length)
  | [], pre, val, sv, fuel, _, _, _, _, _, _ => by
    refine ⟨sv, ?_, fun _ _ => rfl, trivial⟩
    cases fuel <;> rfl
  | m :: ms, pre, val, sv, fuel, hnames, hall, hitems, hlen, hnone, hfuel => by
    obtain ⟨hm, hms⟩ := List.forall_mem_cons.mp hall
    obtain ⟨hval, hrest⟩ := hitems
    have hsplit : pre ++ m :: ms = (pre ++ [m]) ++ ms := by
      rw [List.append_assoc, List.singleton_append]
    have hpre : (pre ++ [m]).length = pre.length + 1 := List.length_append
    have hdrop (sv' : List (Option (List Datum))) : (sv'.drop pre.length).headD none = sv'.getD pre.length none ∧
        (sv'.drop pre.length).tail = sv'.drop (pre ++ [m]).length := by
      rw [List.tail_drop, hpre, List.headD_eq_head?_getD, List.head?_drop, List.getD_eq_getElem?_getD]
      exact ⟨rfl, rfl⟩
    rw [List.map_cons, memberTexts] at hfuel ⊢
    cases hhead : val.headD none with
    | none =>
      rw [hhead] at hfuel
      obtain ⟨sv', hrun, hkeep, hsame⟩ := structLoop_text hafter ms (pre ++ [m]) val.tail sv fuel (hsplit ▸ hnames) hms
        hrest (hsplit ▸ hlen) (fun i hi => hnone i (by omega)) hfuel
      refine ⟨sv', hsplit ▸ hrun, fun i hi => hkeep i (by omega), ?_, ?_⟩
      · rw [(hdrop sv').1, hkeep _ (by omega), hnone _ (Nat.le_refl _), hhead]
        exact .none
      · rw [(hdrop sv').2]
        exact hsame
    | some items =>
      rw [hhead] at hfuel
      dsimp only at hfuel ⊢
      have hmem : m.decl.name ∈ (pre ++ m :: ms).map fun m => m.decl.name :=
        List.mem_map_of_mem (List.mem_append_right _ List.mem_cons_self)
      have htight := tight_fieldText hm (hval items hhead) (hnames.ne_nil _ hmem) (hnames.plain _ hmem)
      have hbehind : Ended (ending (others (memberTexts (ms.map (·.printed asprintf)) val.tail)) ++ after) :=
        ended_others hafter
      obtain ⟨ys, hys, hsameys⟩ := parseValue_fieldText hm (hval items hhead) hbehind
      have hplace : pre.length < sv.length := by
        rw [hlen, List.length_append, List.length_cons]
        omega
      cases fuel with
      | zero => exact absurd hfuel (Nat.not_succ_le_zero _)
      | succ fuel =>
        obtain ⟨sv', hrun, hkeep, hsame⟩ := structLoop_text hafter ms (pre ++ [m]) val.tail (sv.set pre.length (some ys))
          fuel (hsplit ▸ hnames) hms hrest (by rw [List.length_set, ← hsplit, hlen]) (fun i hi => by
            rw [List.getD_eq_getElem?_getD, List.getElem?_set_ne (by omega), ← List.getD_eq_getElem?_getD]
            exact hnone i (by omega)) (Nat.le_of_succ_le_succ hfuel)
        refine ⟨sv', ?_, fun i hi => ?_, ?_, ?_⟩
        · rw [joined_cons, structLoop_turn hnames htight (hnone _ (Nat.le_refl _)) _ hys fuel, others_getD]
          exact hsplit ▸ hrun
        · rw [hkeep i (by omega), List.getD_eq_getElem?_getD, List.getElem?_set_ne (by omega),
            ← List.getD_eq_getElem?_getD]
        · rw [(hdrop sv').1, hkeep _ (by omega), hhead, List.getD_eq_getElem?_getD, List.getElem?_set_self hplace]
          exact .some hsameys
        · rw [(hdrop sv').2]
          exact hsame

/-- The texts of the members are found as they are. -/
theorem tight_memberTexts : ∀ (ms : List Member) (val : List (Option (List Datum))),
    FieldNames (ms.map fun m => m.decl.name) → (∀ m ∈ ms, m.Restores asprintf strtod) →
    MembersItems asprintf strtod ms val → ∀ u ∈ memberTexts (ms.map (·.printed asprintf)) val, Tight u
  | [], _, _, _, _, _, hu => absurd hu List.not_mem_nil
  | m :: ms, val, hnames, hall, hitems, u, hu => by
    obtain ⟨hm, hms⟩ := List.forall_mem_cons.mp hall
    have hnames' : FieldNames (ms.map fun m => m.decl.name) :=
      ⟨fun n hn => hnames.ne_nil n (List.mem_cons_of_mem _ hn), fun n hn => hnames.plain n (List.mem_cons_of_mem _ hn),
        (List.nodup_cons.mp hnames.distinct).2⟩
    have hrest := tight_memberTexts ms val.tail hnames' hms hitems.2
    rw [List.map_cons, memberTexts] at hu
    cases hhead : val.headD none with
    | none =>
      rw [hhead] at hu
      exact hrest u hu
    | some items =>
      rw [hhead] at hu
      rcases List.mem_cons.mp hu with rfl | hu
      · exact tight_fieldText hm (hitems.1 items hhead) (hnames.ne_nil _ List.mem_cons_self)
          (hnames.plain _ List.mem_cons_self)
      · exact hrest u hu

theorem length_le_joined_of_ne_nil : ∀ {ts : List Text}, (∀ u ∈ ts, u ≠ []) → ts.length ≤ (joined ts).length
  | [], _ => Nat.le_refl _
  | u :: ts, h => by
    obtain ⟨hu, hts⟩ := List.forall_mem_cons.mp h
    have hpos := List.length_pos_iff.mpr hu
    have ih := length_le_joined_of_ne_nil hts
    rw [joined_cons, List.length_cons, List.length_append]
    cases ts with
    | nil => exact Nat.le_add_right_of_le hpos
    | cons u' ts =>
      simp only [others, ending, List.length_cons] at ih ⊢
      omega

/-- Without members a struct is as good as the zero of new storage. -/
theorem membersSame_nil : ∀ (ms : List Member) (val : List (Option (List Datum))),
    memberTexts (ms.map (·.printed asprintf)) val = [] → MembersSame ms val []
  | [], _, _ => trivial
  | m :: ms, val, h => by
    rw [List.map_cons, memberTexts] at h
    cases hhead : val.headD none with
    | none =>
      rw [hhead] at h
      exact ⟨by rw [hhead]; exact .none, membersSame_nil ms val.tail h⟩
    | some items =>
      rw [hhead] at h
      cases h

theorem inverse_struct {ms : List Member} (hnames : FieldNames (ms.map fun m => m.decl.name))
    (hall : ∀ m ∈ ms, m.Restores asprintf strtod) : Inverse (structBase (memberFields strtod ms))
      (structPrinter (memberPrinters asprintf ms)) (fun x => ∃ val, x = .struct val ∧ MembersItems asprintf strtod ms val)
      fun x y => ∃ val val', x = .struct val ∧ y = .struct val' ∧ MembersSame ms val val' where
  isStruct := rfl
  tight h := by cases h
  closes := by
    rintro _ ⟨val, rfl, hval⟩
    show closes 0 false (structText (memberPrinters asprintf ms) val false).1 = true
    rw [(structText_eq _ val).1, memberPrinters_eq]
    exact closes_joined fun u hu => closes_of_whole (tight_memberTexts ms val hnames hall hval u hu).whole
  parse := by
    rintro _ rest ⟨val, rfl, hval⟩ hrest
    have htight := tight_memberTexts ms val hnames hall hval
    have hlen := length_le_joined_of_ne_nil fun u hu => (htight u hu).ne_nil
    obtain ⟨sv, hrun, -, hsame⟩ := structLoop_text hrest ms [] val (List.replicate ms.length none) _ hnames hall hval
      List.length_replicate (fun i _ => by
        rw [List.getD_eq_getElem?_getD, List.getElem?_replicate]
        split_ifs <;> rfl) hlen
    refine ⟨.struct sv, 0, ?_, val, sv, rfl, rfl, hsame⟩
    show ((structLoop (memberFields strtod ms) rest (structText (memberPrinters asprintf ms) val false).1.length
      (List.replicate (memberFields strtod ms).length none)
      (structText (memberPrinters asprintf ms) val false).1).map Datum.struct, 0) = _
    rw [List.nil_append] at hrun
    rw [(structText_eq _ val).1, memberPrinters_eq, memberFields_eq, List.length_map, hrun]
    rfl
  null := by
    rintro _ ⟨val, rfl, -⟩ hnull
    have htexts := (structText_eq (memberPrinters asprintf ms) val).2.mp hnull
    rw [memberPrinters_eq] at htexts
    exact ⟨val, [], rfl, rfl, membersSame_nil ms val htexts⟩

/-- A type whose items are read back. -/
theorem inverse_type {t : Member} (ht : t.Restores asprintf strtod) :
    Inverse (typeBase (needsComma t.decl (t.base strtod)) (parseNew t.decl (t.base strtod)))
      (typePrinter (printsCommas t.decl (t.printer asprintf)) (unparse t.decl (t.printer asprintf)))
      (fun x => ∃ val, x = .type val ∧ t.decl.Shaped val ∧ ∀ y ∈ val, t.Item asprintf strtod y)
      fun x y => ∃ val val', x = .type val ∧ y = .type val' ∧ List.Forall₂ t.Same val val' where
  isStruct := rfl
  tight _ := by
    rintro _ ⟨val, rfl, hval⟩
    exact tight_delimited ht hval
  closes := by
    rintro _ ⟨val, rfl, hval⟩
    exact closes_of_whole (tight_delimited ht hval).whole
  parse := by
    rintro _ rest ⟨val, rfl, hval⟩ hrest
    show ∃ y n, (typeBase (needsComma t.decl (t.base strtod)) (parseNew t.decl (t.base strtod))).parse
      (delimited (printsCommas t.decl (t.printer asprintf)) (unparse t.decl (t.printer asprintf) val)) rest = _ ∧ _
    have hcomma : needsComma t.decl (t.base strtod) = printsCommas t.decl (t.printer asprintf) := ht.needsComma
    unfold typeBase
    dsimp only
    rw [hcomma]
    cases printsCommas t.decl (t.printer asprintf) with
    | true =>
      obtain ⟨ys, hys, hsame⟩ := ht.parse val (125 :: rest) hval (ended_close rest)
      refine ⟨.type ys, 0, ?_, val, ys, rfl, rfl, hsame⟩
      rw [if_pos rfl, delimited, if_pos rfl, inBraces_braced]
      exact congrArg (fun r : Except Failure (List Datum) => (r.map Datum.type, 0)) hys
    | false =>
      obtain ⟨ys, hys, hsame⟩ := ht.parse val rest hval hrest
      refine ⟨.type ys, 0, ?_, val, ys, rfl, rfl, hsame⟩
      rw [if_neg Bool.false_ne_true, delimited, if_neg Bool.false_ne_true]
      exact congrArg (fun r : Except Failure (List Datum) => (r.map Datum.type, 0)) hys
  null := by
    rintro _ ⟨val, rfl, -⟩ hnull
    cases hnull

theorem restores_of_inverse {m : Member}
    (h : Inverse (m.base strtod) (m.printer asprintf) (m.Item asprintf strtod) m.Same) : m.Restores asprintf strtod where
  name := rfl
  needsComma := congrArg (m.decl.isVector || ·) h.isStruct.symm
  closes _ hitems := (unparse_spec h hitems.2 hitems.1).1
  tight hcomma _ hitems := (unparse_spec h hitems.2 hitems.1).2 hcomma
  parse _ _ hitems hrest := parseNew_unparse h hitems.2 hitems.1 hrest

mutual

/-- The printer and the parser of every type belong together. -/
theorem Member.inverse : ∀ m : Member, m.Named →
    Inverse (m.base strtod) (m.printer asprintf) (m.Item asprintf strtod) m.Same
  | .scalar _ t, _ => t.inverse asprintf strtod
  | .string _ stringLength, _ => inverse_string stringLength
  | .enum _ _, h => inverse_enum h
  | .struct _ ms, h => inverse_struct h.1 (MembersRestore ms h.2)
  | .type _ t, h => inverse_type (restores_of_inverse (Member.inverse t h))

theorem MembersRestore : ∀ ms : List Member, MembersNamed ms → ∀ m ∈ ms, m.Restores asprintf strtod
  | [], _, m, hm => absurd hm List.not_mem_nil
  | m :: ms, h, n, hn => by
    have hm := restores_of_inverse (Member.inverse m h.1)
    have hms := MembersRestore ms h.2
    rcases List.mem_cons.mp hn with heq | hn
    · exact heq ▸ hm
    · exact hms n hn

end

end

/-! ## Texts of what comes back -/

/-- Items that print alike make values that print alike. -/
theorem unparse_congr {d : Decl} {p : Printer} {same : Datum → Datum → Prop} {items ys : List Datum}
    (hprint : ∀ x y, same x y → p.print x = p.print y) (h : List.Forall₂ same items ys) :
    unparse d p items = unparse d p ys := by
  have hvalue : unparseValue d p items = unparseValue d p ys := by
    funext nSeq nArray
    unfold unparseValue
    generalize nSeq * d.nItems + nArray = i
    induction h generalizing i with
    | nil => rfl
    | cons hxy _ ih =>
      cases i with
      | zero => exact hprint _ _ hxy
      | succ i => exact ih i
  have helement : unparseElement d p items = unparseElement d p ys := by
    funext nSeq
    unfold unparseElement
    rw [hvalue]
  have hsequence : unparseSequenceElement d p items = unparseSequenceElement d p ys := by
    funext n
    unfold unparseSequenceElement
    rw [helement]
  unfold unparse
  rw [hsequence, helement, Decl.elements, Decl.elements, h.length_eq]

mutual

/-- Items that are as good as each other print alike. -/
theorem Member.print_same (asprintf : Scalar → Nat → Text) : ∀ (m : Member) (x y : Datum), m.Same x y →
    (m.printer asprintf).print x = (m.printer asprintf).print y
  | .scalar _ _, _, _, h | .string _ _, _, _, h | .enum _ _, _, _, h => congrArg _ h
  | .struct _ ms, _, _, ⟨val, val', hx, hy, h⟩ => by
    subst hx
    subst hy
    exact membersText_same asprintf ms val val' false h
  | .type _ t, _, _, ⟨val, val', hx, hy, h⟩ => by
    subst hx
    subst hy
    have htext := unparse_congr (d := t.decl) (Member.print_same asprintf t) h
    exact congrArg (fun s => (delimited (printsCommas t.decl (t.printer asprintf)) s, false)) htext

theorem membersText_same (asprintf : Scalar → Nat → Text) : ∀ (ms : List Member) (val val' : List (Option (List Datum)))
    (seenOne : Bool), MembersSame ms val val' →
    structText (memberPrinters asprintf ms) val seenOne = structText (memberPrinters asprintf ms) val' seenOne
  | [], _, _, _, _ => rfl
  | m :: ms, val, val', seenOne, h => by
    obtain ⟨hhead, htail⟩ := h
    have htext (seenOne : Bool) := membersText_same asprintf ms val.tail val'.tail seenOne htail
    have hprint := Member.print_same asprintf m
    rw [memberPrinters, structText, structText]
    cases hval : val.headD none with
    | none =>
      rw [hval] at hhead
      generalize val'.headD none = o at hhead
      cases hhead
      exact htext seenOne
    | some items =>
      rw [hval] at hhead
      generalize val'.headD none = o at hhead
      cases hhead with
      | some hitems =>
        dsimp only
        rw [htext true, unparse_congr hprint hitems]

end

/-- **Every value is read back from its text**, at the end of a string and in front of a comma or brace: arrays and
sequences of scalars, strings, enums, structs and types, nested as they may be. What comes back has the same text. -/
theorem parse_unparse (asprintf : Scalar → Nat → Text) (strtod : Scalar → Text → Option Nat) (m : Member)
    (items : List Datum) (after : Text) (hm : m.Named) (hitems : m.Items asprintf strtod items) (hafter : Ended after) :
    ∃ ys, m.parse strtod (m.unparse asprintf items) after = .ok ys ∧ List.Forall₂ m.Same items ys ∧
      m.unparse asprintf ys = m.unparse asprintf items := by
  obtain ⟨ys, hys, hsame⟩ := parseNew_unparse (m.inverse hm) hitems.2 hitems.1 hafter
  exact ⟨ys, hys, hsame, (unparse_congr (m.print_same asprintf) hsame).symm⟩

/-- A struct with two numbers `n` and a name `s`. -/
def pairRecord : Member := .struct singleDecl
  [.scalar { singleDecl with name := [110], arrayDimensions := [2] } .short, .string { singleDecl with name := [115] } 3]

/-- `n {-7},s "a,b"` with a comma that is printed behind a backslash. -/
theorem parse_unparse_pair : ∃ ys, pairRecord.parse (fun _ _ => none) (pairRecord.unparse (fun _ _ => [])
    [.struct [some [.int (-7), .int 0], some [.string [97, 44, 98]]]]) [] = .ok ys ∧ List.Forall₂ pairRecord.Same
      [.struct [some [.int (-7), .int 0], some [.string [97, 44, 98]]]] ys ∧
    pairRecord.unparse (fun _ _ => []) ys = pairRecord.unparse (fun _ _ => [])
      [.struct [some [.int (-7), .int 0], some [.string [97, 44, 98]]]] := by
  have hsized (n : Nat) (hn : 0 < n) (hlt : n < 2 ^ 64) :
      ({ singleDecl with name := [110], arrayDimensions := [n] } : Decl).Sized :=
    ⟨by simpa using hn, by simpa using hlt⟩
  have hsingle (name : Text) (x : Datum) : ({ singleDecl with name := name } : Decl).Shaped [x] :=
    ⟨⟨by simp [singleDecl], by simp [singleDecl]⟩, by simp, fun _ => by simp [Decl.nItems, singleDecl],
      fun h => by cases h⟩
  refine parse_unparse (fun _ _ => []) (fun _ _ => none) pairRecord _ [] ⟨⟨?_, ?_, ?_⟩, trivial, trivial, trivial⟩
    ⟨hsingle [] _, ?_⟩ ended_nil
  · simp [singleDecl, Member.decl]
  · exact List.forall_mem_cons.mpr ⟨plain_of_all rfl, List.forall_mem_singleton.mpr (plain_of_all rfl)⟩
  · simp [singleDecl, Member.decl]
  · refine List.forall_mem_singleton.mpr ⟨_, rfl, ?_, ?_, trivial⟩
    · rintro _ ⟨⟩
      refine ⟨⟨hsized 2 (by decide) (by decide), by simp, fun _ => rfl, fun h => by cases h⟩, ?_⟩
      refine List.forall_mem_cons.mpr ⟨⟨-7, rfl, ?_⟩, List.forall_mem_singleton.mpr ⟨0, rfl, ?_⟩⟩
      · simp [Scalar.holds, Scalar.signed, Scalar.bits]
      · simp [Scalar.holds, Scalar.signed, Scalar.bits]
    · rintro _ ⟨⟩
      exact ⟨hsingle [115] _, List.forall_mem_singleton.mpr ⟨_, rfl, fun _ => by decide⟩⟩

end OpenCpi.Value
