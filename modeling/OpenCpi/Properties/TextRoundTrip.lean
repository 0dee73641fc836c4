import OpenCpi.Properties.PrintedText

/-!
# Values come back from their texts

`parse` reads what `unparse` prints. Null elements at the end of an array are not printed but for the first one,
and are the zeros that new storage is filled with. A struct without members is as good as none.
-/

namespace OpenCpi.Value

open Infra

variable {d : Decl} {base : Base Datum} {p : Printer} {ok : Datum → Prop} {same : Datum → Datum → Prop}
  {items : List Datum} {text after rest : Text}

/-! ## Printing an array -/

theorem joined_concat (ts : List Text) (text : Text) :
    joined (ts ++ [text]) = (if ts.length ≠ 0 then joined ts ++ [44] else joined ts) ++ text := by
  induction ts with
  | nil => exact List.intercalate_singleton
  | cons t ts ih =>
    have hlen : (t :: ts).length ≠ 0 := Nat.succ_ne_zero _
    rw [List.cons_append, joined_cons, if_pos hlen]
    cases ts with
    | nil => simp [others, ending, joined]
    | cons t' ts =>
      have hlen' : (t' :: ts).length ≠ 0 := Nat.succ_ne_zero _
      rw [if_pos hlen'] at ih
      rw [joined_cons t (t' :: ts), List.cons_append, others, ending, others, ending, ← List.cons_append, ih]
      simp

theorem joined_take (ts : List Text) (m : Nat) : joined (ts.take m) <+: joined ts := by
  induction ts generalizing m with
  | nil => simp
  | cons t ts ih =>
    cases m with
    | zero => exact List.nil_prefix
    | succ m =>
      rw [List.take_succ_cons, joined_cons, joined_cons]
      refine List.prefix_append_right_inj t |>.mpr ?_
      cases ts with
      | nil => simp
      | cons t' ts =>
        cases m with
        | zero => exact List.nil_prefix
        | succ m => exact List.prefix_cons_inj 44 |>.mpr (ih (m + 1))

/-- The texts of the first elements. -/
def elementTexts (element : Nat → Printed) (n : Nat) : List Text := (List.range n).map fun i => (element i).1

theorem elementTexts_succ (element : Nat → Printed) (n : Nat) :
    elementTexts element (n + 1) = elementTexts element n ++ [(element n).1] := by
  rw [elementTexts, List.range_succ, List.map_append]
  rfl

theorem length_elementTexts (element : Nat → Printed) (n : Nat) : (elementTexts element n).length = n := by
  rw [elementTexts, List.length_map, List.length_range]

theorem take_elementTexts (element : Nat → Printed) {m n : Nat} (h : m ≤ n) :
    (elementTexts element n).take m = elementTexts element m := by
  rw [elementTexts, ← List.map_take, List.take_range, Nat.min_eq_left h, elementTexts]

/-- The state of the loop of `unparseDimension` behind `n` elements. -/
structure Dimension.Inv (element : Nat → Printed) (n : Nat) (s : Dimension) : Prop where
  v : s.v = joined (elementTexts element n)
  length : s.length = 0 ∨ ∃ m, 0 < m ∧ m ≤ n ∧ s.length = (joined (elementTexts element m)).length ∧
    ∀ i, m ≤ i → i < n → (element i).2 = true
  allNull : s.allNull = true → ∀ i < n, (element i).2 = true

theorem Dimension.inv_start (element : Nat → Printed) : Dimension.Inv element 0 {} where
  v := rfl
  length := Or.inl rfl
  allNull _ i hi := absurd hi (Nat.not_lt_zero i)

theorem Dimension.Inv.append {element : Nat → Printed} {n : Nat} {s : Dimension} (h : s.Inv element n) :
    (s.append (element n).2 ((if n ≠ 0 then s.v ++ [44] else s.v) ++ (element n).1)).Inv element (n + 1) := by
  have hv : (if n ≠ 0 then s.v ++ [44] else s.v) ++ (element n).1 = joined (elementTexts element (n + 1)) := by
    rw [elementTexts_succ, joined_concat, length_elementTexts, h.v]
  rw [hv]
  unfold Dimension.append
  by_cases hnull : (element n).2 = true
  · rw [if_pos hnull]
    refine ⟨rfl, ?_, fun hall i hi => ?_⟩
    · by_cases hprev : s.prevNull = true
      · show (if s.prevNull = true then s.length else _) = 0 ∨ _
        rw [if_pos hprev]
        rcases h.length with hzero | ⟨m, hpos, hle, hlen, hnulls⟩
        · exact Or.inl hzero
        · refine Or.inr ⟨m, hpos, Nat.le_succ_of_le hle, ?_, fun i hm hi => ?_⟩
          · exact hlen
          · rcases Nat.lt_succ_iff_lt_or_eq.mp hi with hi | rfl
            · exact hnulls i hm hi
            · exact hnull
      · exact Or.inr ⟨n + 1, Nat.succ_pos n, Nat.le_refl _, if_neg hprev,
          fun i hm hi => absurd hi (Nat.not_lt_of_le hm)⟩
    · rcases Nat.lt_succ_iff_lt_or_eq.mp hi with hi | rfl
      · exact h.allNull hall i hi
      · exact hnull
  · rw [if_neg hnull]
    exact ⟨rfl, Or.inl rfl, fun hall => absurd hall Bool.false_ne_true⟩

theorem Dimension.Inv.loop {element : Nat → Printed} : ∀ {k n : Nat} {s : Dimension}, s.Inv element n →
    (Dimension.loop element k n s).Inv element (n + k)
  | 0, _, _, h => h
  | k + 1, n, s, h => by
    have ih := h.append.loop (k := k)
    rw [Nat.add_right_comm, Nat.add_assoc] at ih
    exact ih

/-- **What is printed of an array**: the elements up to one behind which all are null. -/
theorem printed_loop (element : Nat → Printed) {n : Nat} (hn : 0 < n) :
    ∃ m, 0 < m ∧ m ≤ n ∧ (Dimension.loop element n 0 {}).printed.1 = joined (elementTexts element m) ∧
      (∀ i, m ≤ i → i < n → (element i).2 = true) ∧
      ((Dimension.loop element n 0 {}).printed.2 = true → ∀ i < n, (element i).2 = true) := by
  have hinv := (Dimension.inv_start element).loop (k := n)
  rw [Nat.zero_add] at hinv
  rcases hinv.length with hzero | ⟨m, hpos, hle, hlen, hnulls⟩
  · refine ⟨n, hn, Nat.le_refl n, ?_, fun i hm hi => absurd hi (Nat.not_lt_of_le hm), hinv.allNull⟩
    rw [Dimension.printed, if_neg (not_not_intro hzero), hinv.v]
  · by_cases hz : (Dimension.loop element n 0 {}).length = 0
    · refine ⟨n, hn, Nat.le_refl n, ?_, fun i hm hi => absurd hi (Nat.not_lt_of_le hm), hinv.allNull⟩
      rw [Dimension.printed, if_neg (not_not_intro hz), hinv.v]
    · refine ⟨m, hpos, hle, ?_, hnulls, hinv.allNull⟩
      have hprefix := joined_take (elementTexts element n) m
      rw [take_elementTexts element hle] at hprefix
      rw [Dimension.printed, if_pos hz, hinv.v, hlen]
      exact (List.prefix_iff_eq_take.mp hprefix).symm

/-! ## Reading an array -/

/-- **The loop over the elements of a dimension** on texts that are found as they are: what a turn keeps, from one
element to the next, holds at the end. -/
theorem ends_dimensionLoop_tight (body : Text → Text → Nat → ParseM Datum Unit) (skip : Nat) (hafter : Ended after) :
    ∀ (us : List Text) (k offset : Nat) (first : Bool) (v : ValueState Datum) (P : Nat → ValueState Datum → Prop),
      us.length ≤ k → (∀ u ∈ us, Tight u) → (first = true → us ≠ []) → P 0 v →
      (∀ i u, us[i]? = some u → ∀ rest w, Ended rest → P i w →
        Exc.Ends (fun _ w' => P (i + 1) w') (fun _ _ => False) (body u rest (offset + i * skip)) w) →
      Exc.Ends (fun excess w => excess = [] ∧ P us.length w) (fun _ _ => False)
        (dimensionLoop body skip after k first offset (joined us)) v
  | [], 0, offset, first, v, P, _, _, _, hP, _ => ⟨rfl, hP⟩
  | [], k + 1, offset, first, v, P, _, _, hfirst, hP, _ => by
    cases first with
    | true => exact absurd rfl (hfirst rfl)
    | false => exact ⟨rfl, hP⟩
  | u :: us, 0, offset, first, v, P, hlen, _, _, _, _ => absurd hlen (Nat.not_succ_le_zero _)
  | u :: us, k + 1, offset, first, v, P, hlen, htight, hfirst, hP, hbody => by
    obtain ⟨hu, hus⟩ := List.forall_mem_cons.mp htight
    have hgo : ¬(!first && u.isEmpty) = true := by
      simp [hu.ne_nil]
    rw [joined_cons, dimensionLoop, hu.found]
    dsimp only
    rw [if_neg hgo, others_getD]
    have hhead := hbody 0 u rfl (ending (others us) ++ after) v (ended_others hafter) hP
    rw [Nat.zero_mul, Nat.add_zero] at hhead
    refine Exc.Ends.bind hhead fun _ w hw => ?_
    refine ends_dimensionLoop_tight body skip hafter us k (offset + skip) false w (fun i => P (i + 1))
      (Nat.le_of_succ_le_succ hlen) hus (fun h => absurd h Bool.false_ne_true) hw fun i u' hu' rest w' hrest hw' => ?_
    have hoffset : offset + (i + 1) * skip = offset + skip + i * skip := by
      rw [Nat.succ_mul]
      omega
    exact hoffset ▸ hbody (i + 1) u' hu' rest w' hrest hw'

/-- How the items of a value and what is read of them belong together. -/
structure Stored (same : Datum → Datum → Prop) (items : List Datum) (lo n : Nat) (ys ys' : List Datum) : Prop where
  length : ys'.length = ys.length
  stored : ∀ i, lo ≤ i → i < lo + n → ∃ x y, items[i]? = some x ∧ ys'[i]? = some y ∧ same x y
  other : ∀ i, i < lo ∨ lo + n ≤ i → ys'[i]? = ys[i]?

theorem stored_zero (same : Datum → Datum → Prop) (items : List Datum) (lo : Nat) (ys : List Datum) :
    Stored same items lo 0 ys ys :=
  ⟨rfl, fun _ hlo hi => absurd hi (Nat.not_lt_of_le hlo), fun _ _ => rfl⟩

theorem Stored.trans {lo n k : Nat} {ys ys' ys'' : List Datum} (h : Stored same items lo n ys ys')
    (h' : Stored same items (lo + n) k ys' ys'') : Stored same items lo (n + k) ys ys'' where
  length := h'.length.trans h.length
  stored i hlo hi := by
    by_cases hn : i < lo + n
    · rw [h'.other i (Or.inl hn)]
      exact h.stored i hlo hn
    · exact h'.stored i (Nat.le_of_not_lt hn) (by omega)
  other i hi := by
    rw [h'.other i (by omega), h.other i (by omega)]

/-- One place is written. -/
theorem stored_set {lo : Nat} {x y : Datum} {ys : List Datum} (hx : items[lo]? = some x) (hlt : lo < ys.length)
    (hsame : same x y) : Stored same items lo 1 ys (ys.set lo y) where
  length := List.length_set
  stored _ hlo hi := by
    obtain rfl := Nat.le_antisymm (Nat.le_of_lt_succ hi) hlo
    exact ⟨x, y, hx, List.getElem?_set_self hlt, hsame⟩
  other i hi := List.getElem?_set_ne (by omega)

/-- Places are left as they are. -/
theorem stored_same {lo n : Nat} {ys : List Datum}
    (h : ∀ i, lo ≤ i → i < lo + n → ∃ x y, items[i]? = some x ∧ ys[i]? = some y ∧ same x y) :
    Stored same items lo n ys ys :=
  ⟨rfl, h, fun _ _ => rfl⟩

/-! ## Items of a base type -/

/-- The printer and the parser of a base type, for the items that are allowed and what they may come back as. -/
structure Inverse (base : Base Datum) (p : Printer) (ok : Datum → Prop) (same : Datum → Datum → Prop) : Prop where
  isStruct : p.isStruct = base.isStruct
  tight : base.isStruct = false → ∀ x, ok x → Tight (p.print x).1
  closes : ∀ x, ok x → closes 0 false (p.print x).1 = true
  parse : ∀ x rest, ok x → Ended rest → ∃ y n, base.parse (p.print x).1 rest = (.ok y, n) ∧ same x y
  null : ∀ x, ok x → (p.print x).2 = true → same x base.zero

section

variable (hinv : Inverse base p ok same) (hok : ∀ x ∈ items, ok x)

include hinv

/-- `parseValue` puts an item into its place. -/
theorem ends_parseValue_item (hvector : d.isVector = true) {x : Datum} (hx : ok x) (hrest : Ended rest)
    {nSeq nArray lo : Nat} (hlo : nSeq * d.nItems + nArray = lo) (hitem : items[lo]? = some x) {v : ValueState Datum}
    {ys : List Datum} (hys : v.items = .array ys) (hlt : lo < ys.length) :
    Exc.Ends (fun _ w => ∃ ys', w.items = .array ys' ∧ Stored same items lo 1 ys ys') (fun _ _ => False)
      (parseValue d base (p.print x).1 rest nSeq nArray) v := by
  obtain ⟨y, n, hparse, hsame⟩ := hinv.parse x rest hx hrest
  unfold parseValue
  rw [hparse]
  dsimp only
  rw [Exc.ends_change_bind, hlo]
  refine (ends_storeItem hvector (v := { v with stringNext := v.stringNext + n }) hys lo y).imp ?_ fun _ _ h => h
  exact fun _ w hw => ⟨_, hw, stored_set hitem hlt hsame⟩

/-- The same in the braces of an element, which structs have. -/
theorem ends_parseItem (hvector : d.isVector = true) {x : Datum} (hx : ok x) (hrest : Ended rest)
    {nSeq nArray lo : Nat} (hlo : nSeq * d.nItems + nArray = lo) (hitem : items[lo]? = some x) {v : ValueState Datum}
    {ys : List Datum} (hys : v.items = .array ys) (hlt : lo < ys.length) :
    Exc.Ends (fun _ w => ∃ ys', w.items = .array ys' ∧ Stored same items lo 1 ys ys') (fun _ _ => False)
      (parseItem d base nSeq (if p.isStruct then braced (p.print x).1 else (p.print x).1) rest nArray) v := by
  unfold parseItem needsCommaDimension
  rw [hinv.isStruct]
  split_ifs
  · rw [inBraces_braced]
    exact ends_parseValue_item hinv hvector hx (fun c s h => by cases h; exact Or.inr rfl) hlo hitem hys hlt
  · exact ends_parseValue_item hinv hvector hx hrest hlo hitem hys hlt

end

/-! ## Dimensions -/

/-- A place in an array is in one of its elements. -/
theorem exists_element {lo n k i : Nat} (hlo : lo ≤ i) (hi : i < lo + n * k) :
    ∃ j, j < n ∧ lo + j * k ≤ i ∧ i < lo + j * k + k := by
  have hk : 0 < k := Nat.pos_of_ne_zero fun h => by
    rw [h, Nat.mul_zero] at hi
    omega
  have hdiv := Nat.div_add_mod (i - lo) k
  have hmod := Nat.mod_lt (i - lo) hk
  rw [Nat.mul_comm] at hdiv
  exact ⟨(i - lo) / k, (Nat.div_lt_iff_lt_mul hk).mpr (by omega), by omega, by omega⟩

/-- The element that a place belongs to is in the array. -/
theorem element_le {n k j m len : Nat} (hj : j < n) (h : m + n * k ≤ len) : m + j * k + k ≤ len := by
  have hle : (j + 1) * k ≤ n * k := Nat.mul_le_mul_right k hj
  rw [Nat.succ_mul] at hle
  omega

/-- The element of a dimension as it is printed. -/
def elementPrinter (isStruct : Bool) (value : Nat → Printed) (rest : List Nat) (skip offset n : Nat) : Printed :=
  if rest.isEmpty then
    let p := value (offset + n)
    (if isStruct then braced p.1 else p.1, p.2)
  else
    let p := unparseDimension isStruct value rest skip (offset + n * skip)
    (braced p.1, p.2)

theorem unparseValue_item {nSeq lo i : Nat} (hlo : nSeq * d.nItems = lo) {x : Datum} (hx : items[lo + i]? = some x) :
    unparseValue d p items nSeq i = p.print x := by
  rw [unparseValue, hlo, hx]

/-- The items at some places are as good as zeros. -/
def Zeros (same : Datum → Datum → Prop) (zero : Datum) (items : List Datum) (lo n : Nat) : Prop :=
  ∀ i, lo ≤ i → i < lo + n → ∃ x, items[i]? = some x ∧ same x zero

/-- Places of new storage. -/
def Blank (zero : Datum) (ys : List Datum) (lo n : Nat) : Prop := ∀ i, lo ≤ i → i < lo + n → ys[i]? = some zero

/-- What is printed of some dimensions closes its braces, and is null for zeros only. -/
structure PrintsDimensions (d : Decl) (base : Base Datum) (p : Printer) (same : Datum → Datum → Prop)
    (items : List Datum) (nSeq : Nat) (dims : List Nat) (offset : Nat) : Prop where
  closes : closes 0 false (unparseDimension p.isStruct (unparseValue d p items nSeq) dims dims.prod offset).1 = true
  null : (unparseDimension p.isStruct (unparseValue d p items nSeq) dims dims.prod offset).2 = true →
    Zeros same base.zero items (nSeq * d.nItems + offset) dims.prod

theorem elementTexts_get {element : Nat → Printed} {m i : Nat} {u : Text} (h : (elementTexts element m)[i]? = some u) :
    i < m ∧ u = (element i).1 := by
  obtain ⟨hlt, hu⟩ := List.getElem?_eq_some_iff.mp h
  rw [length_elementTexts] at hlt
  rw [← hu]
  simp [elementTexts, hlt]

/-- A dimension is read into new places. -/
def ReadsDimensions (d : Decl) (base : Base Datum) (p : Printer) (same : Datum → Datum → Prop) (items : List Datum)
    (nSeq : Nat) (dims : List Nat) (offset : Nat) : Prop :=
  ∀ (after : Text) (v : ValueState Datum) (ys : List Datum), Ended after → v.items = .array ys →
    Blank base.zero ys (nSeq * d.nItems + offset) dims.prod →
    Exc.Ends (fun _ w => ∃ ys', w.items = .array ys' ∧ Stored same items (nSeq * d.nItems + offset) dims.prod ys ys')
      (fun _ _ => False) (parseDimension d base nSeq dims dims.prod offset
        (unparseDimension p.isStruct (unparseValue d p items nSeq) dims dims.prod offset).1 after) v

/-- The body of the loop of `parseDimension`. -/
def elementParser (d : Decl) (base : Base Datum) (nSeq : Nat) (rest : List Nat) (skip : Nat) (text after : Text)
    (offset : Nat) : ParseM Datum Unit :=
  if rest.isEmpty then parseItem d base nSeq text after offset
  else
    match inBraces text with
    | none =>
      raise s!"array elements not enclosed in \x7b\x7d for ({shown (text ++ after)}) ({text.length})"
    | some inner => parseDimension d base nSeq rest skip offset inner (125 :: after)

theorem ended_close (after : Text) : Ended (125 :: after) := fun c s h => by
  cases h
  exact Or.inr rfl

section

variable (hinv : Inverse base p ok same) (hok : ∀ x ∈ items, ok x)

include hinv

theorem tight_item {x : Datum} (hx : ok x) : Tight (if p.isStruct then braced (p.print x).1 else (p.print x).1) := by
  rw [hinv.isStruct]
  cases hstruct : base.isStruct with
  | true => exact tight_braced (hinv.closes x hx)
  | false => exact hinv.tight hstruct x hx

include hok

/-- An element is found as it is if it is printed so. -/
theorem elementPrinter_spec {nSeq dimension offset n : Nat} {rest : List Nat}
    (hroom : nSeq * d.nItems + offset + dimension * rest.prod ≤ items.length) (hn : n < dimension)
    (ih : rest ≠ [] → PrintsDimensions d base p same items nSeq rest (offset + n * rest.prod)) :
    Tight (elementPrinter p.isStruct (unparseValue d p items nSeq) rest rest.prod offset n).1 ∧
      ((elementPrinter p.isStruct (unparseValue d p items nSeq) rest rest.prod offset n).2 = true →
        Zeros same base.zero items (nSeq * d.nItems + offset + n * rest.prod) rest.prod) := by
  have hplace := element_le hn hroom
  unfold elementPrinter
  cases rest with
  | nil =>
    rw [List.prod_nil, Nat.mul_one] at hplace ⊢
    have hlt : nSeq * d.nItems + (offset + n) < items.length := by omega
    have hx := hok _ (List.getElem_mem hlt)
    rw [unparseValue_item rfl (List.getElem?_eq_getElem hlt)]
    refine ⟨tight_item hinv hx, fun hnull i hi hi' => ⟨_, ?_, hinv.null _ hx hnull⟩⟩
    obtain rfl : i = nSeq * d.nItems + (offset + n) := by omega
    exact List.getElem?_eq_getElem hlt
  | cons next rest =>
    have hprints := ih (List.cons_ne_nil _ _)
    refine ⟨tight_braced hprints.closes, fun hnull => ?_⟩
    rw [Nat.add_assoc]
    exact hprints.null hnull

theorem printsDimensions (nSeq : Nat) : ∀ (dims : List Nat) (offset : Nat), dims ≠ [] → (∀ n ∈ dims, 0 < n) →
    nSeq * d.nItems + offset + dims.prod ≤ items.length → PrintsDimensions d base p same items nSeq dims offset
  | [], _, hne, _, _ => absurd rfl hne
  | dimension :: rest, offset, _, hpos, hroom => by
    obtain ⟨hdim, hrest⟩ := List.forall_mem_cons.mp hpos
    rw [List.prod_cons] at hroom
    have helement (n : Nat) (hn : n < dimension) := elementPrinter_spec hinv hok hroom hn fun hne => by
      have hplace := element_le hn hroom
      exact printsDimensions nSeq rest (offset + n * rest.prod) hne hrest (by omega)
    obtain ⟨m, -, hm, htext, -, hnull⟩ :=
      printed_loop (elementPrinter p.isStruct (unparseValue d p items nSeq) rest rest.prod offset) hdim
    constructor
    · rw [List.prod_cons, unparseDimension, Nat.mul_div_cancel_left _ hdim]
      refine Eq.trans (congrArg (closes 0 false) htext) (closes_joined fun u hu => ?_)
      obtain ⟨n, hn, rfl⟩ := List.mem_map.mp hu
      exact closes_of_whole (helement n (Nat.lt_of_lt_of_le (List.mem_range.mp hn) hm)).1.whole
    · rw [List.prod_cons, unparseDimension, Nat.mul_div_cancel_left _ hdim]
      intro hall i hi hi'
      obtain ⟨n, hn, hle, hlt⟩ := exists_element hi hi'
      exact (helement n hn).2 (hnull hall n hn) i hle hlt

theorem ends_elementParser (hvector : d.isVector = true) {nSeq dimension offset n : Nat} {rest : List Nat}
    (hroom : nSeq * d.nItems + offset + dimension * rest.prod ≤ items.length) (hn : n < dimension)
    (ih : rest ≠ [] → ReadsDimensions d base p same items nSeq rest (offset + n * rest.prod)) (hafter : Ended after)
    {v : ValueState Datum} {ys : List Datum} (hys : v.items = .array ys)
    (hblank : Blank base.zero ys (nSeq * d.nItems + offset + n * rest.prod) rest.prod) :
    Exc.Ends (fun _ w => ∃ ys', w.items = .array ys' ∧
        Stored same items (nSeq * d.nItems + offset + n * rest.prod) rest.prod ys ys')
      (fun _ _ => False) (elementParser d base nSeq rest rest.prod
        (elementPrinter p.isStruct (unparseValue d p items nSeq) rest rest.prod offset n).1 after
        (offset + n * rest.prod)) v := by
  have hplace := element_le hn hroom
  unfold elementParser elementPrinter
  cases rest with
  | nil =>
    rw [List.prod_nil, Nat.mul_one] at hplace hblank ⊢
    have hlt : nSeq * d.nItems + (offset + n) < items.length := by omega
    have hys' := hblank (nSeq * d.nItems + (offset + n)) (by omega) (by omega)
    rw [unparseValue_item rfl (List.getElem?_eq_getElem hlt), Nat.add_assoc]
    exact ends_parseItem hinv hvector (hok _ (List.getElem_mem hlt)) hafter rfl (List.getElem?_eq_getElem hlt) hys
      (List.getElem?_eq_some_iff.mp hys').1
  | cons next rest =>
    dsimp only [List.isEmpty_cons]
    rw [if_neg Bool.false_ne_true, if_neg Bool.false_ne_true, inBraces_braced]
    rw [Nat.add_assoc] at hblank ⊢
    exact ih (List.cons_ne_nil _ _) _ v ys (ended_close after) hys hblank

/-- The dimensions from one on are read into new places. -/
theorem readsDimensions (hvector : d.isVector = true) (nSeq : Nat) : ∀ (dims : List Nat) (offset : Nat), dims ≠ [] →
    (∀ n ∈ dims, 0 < n) → nSeq * d.nItems + offset + dims.prod ≤ items.length →
    ReadsDimensions d base p same items nSeq dims offset
  | [], _, hne, _, _ => absurd rfl hne
  | dimension :: rest, offset, _, hpos, hroom => by
    intro after v ys hafter hys hblank
    obtain ⟨hdim, hrest⟩ := List.forall_mem_cons.mp hpos
    rw [List.prod_cons] at hroom hblank
    have hplace (n : Nat) (hn : n < dimension) := element_le hn hroom
    have helement (n : Nat) (hn : n < dimension) := elementPrinter_spec hinv hok hroom hn fun hne =>
      printsDimensions hinv hok nSeq rest (offset + n * rest.prod) hne hrest (by have := hplace n hn; omega)
    obtain ⟨m, hm, hle, htext, hnulls, -⟩ :=
      printed_loop (elementPrinter p.isStruct (unparseValue d p items nSeq) rest rest.prod offset) hdim
    have hskip : (if rest.isEmpty then 1 else rest.prod) = rest.prod := by
      cases rest <;> rfl
    have hprinted : (unparseDimension p.isStruct (unparseValue d p items nSeq) (dimension :: rest)
        (dimension * rest.prod) offset).1 =
        joined (elementTexts (elementPrinter p.isStruct (unparseValue d p items nSeq) rest rest.prod offset) m) := by
      rw [unparseDimension, Nat.mul_div_cancel_left _ hdim]
      exact htext
    rw [List.prod_cons, hprinted, parseDimension, Nat.mul_div_cancel_left _ hdim, hskip]
    refine Exc.Ends.bind (P := fun excess w => excess = [] ∧ ∃ ys', w.items = .array ys' ∧
      Stored same items (nSeq * d.nItems + offset) (m * rest.prod) ys ys') ?_ ?_
    · have hloop := ends_dimensionLoop_tight (elementParser d base nSeq rest rest.prod) rest.prod
        hafter (elementTexts (elementPrinter p.isStruct (unparseValue d p items nSeq) rest rest.prod offset) m)
        dimension offset true v (fun j w => ∃ ys', w.items = .array ys' ∧
          Stored same items (nSeq * d.nItems + offset) (j * rest.prod) ys ys')
      rw [length_elementTexts] at hloop
      refine hloop hle ?_ ?_ ⟨ys, hys, ?_⟩ ?_
      · intro u hu
        obtain ⟨n, hn, rfl⟩ := List.mem_map.mp hu
        exact (helement n (Nat.lt_of_lt_of_le (List.mem_range.mp hn) hle)).1
      · exact fun _ h => absurd (congrArg List.length h) (by rw [length_elementTexts]; exact Nat.ne_of_gt hm)
      · rw [Nat.zero_mul]
        exact stored_zero same items _ ys
      · rintro n u hu rest' w hrest' ⟨ys', hys', hstored⟩
        obtain ⟨hn, rfl⟩ := elementTexts_get hu
        have hn' := Nat.lt_of_lt_of_le hn hle
        have hroom' := hplace n hn'
        refine (ends_elementParser hinv hok hvector hroom hn' (fun hne => ?_) hrest' hys' fun i hi hi' => ?_).imp ?_
          fun _ _ h => h
        · exact readsDimensions hvector nSeq rest (offset + n * rest.prod) hne hrest (by omega)
        · have hin := element_le hn' (Nat.le_refl (nSeq * d.nItems + offset + dimension * rest.prod))
          rw [hstored.other i (Or.inr hi)]
          exact hblank i (by omega) (by omega)
        · rintro _ w' ⟨ys'', hys'', hstored'⟩
          rw [Nat.succ_mul]
          exact ⟨ys'', hys'', hstored.trans hstored'⟩
    · rintro excess w ⟨rfl, ys', hys', hstored⟩
      refine ⟨ys', hys', ?_⟩
      have hsplit : dimension * rest.prod = m * rest.prod + (dimension - m) * rest.prod := by
        rw [← Nat.add_mul, Nat.add_sub_cancel' hle]
      rw [hsplit]
      refine hstored.trans (stored_same fun i hi hi' => ?_)
      obtain ⟨n, hn, hlo, hhi⟩ := exists_element (i := i) (n := dimension) (by omega : nSeq * d.nItems + offset ≤ i)
        (by rw [hsplit]; omega)
      have hmn : m ≤ n := by
        by_contra hlt
        have := element_le (n := m) (k := rest.prod) (m := nSeq * d.nItems + offset) (Nat.lt_of_not_le hlt) (Nat.le_refl _)
        omega
      obtain ⟨x, hx, hsame⟩ := (helement n hn).2 (hnulls n hmn hn) i hlo hhi
      refine ⟨x, base.zero, hx, ?_, hsame⟩
      rw [hstored.other i (Or.inr hi)]
      exact hblank i (by omega) (by rw [hsplit]; omega)

/-! ## Elements of a value -/

/-- The dimensions of a type whose items can be counted. -/
structure Decl.Sized (d : Decl) : Prop where
  positive : ∀ n ∈ d.arrayDimensions, 0 < n
  product : d.arrayDimensions.prod < 2 ^ 64

omit hinv hok in
theorem Decl.Sized.nItems (h : d.Sized) : d.nItems = d.arrayDimensions.prod := Nat.mod_eq_of_lt h.product

omit hinv hok in
theorem Decl.Sized.nItems_pos (h : d.Sized) : 0 < d.nItems := by
  rw [h.nItems]
  exact List.prod_pos_iff_forall_pos_nat.mpr h.positive

/-- An element that needs no braces is found as it is, and one in braces closes its own. -/
theorem unparseElement_spec (hsized : d.Sized) {nSeq : Nat} (hroom : nSeq * d.nItems + d.nItems ≤ items.length) :
    closes 0 false (unparseElement d p items nSeq) = true ∧
      (d.arrayDimensions = [] → base.isStruct = false → Tight (unparseElement d p items nSeq)) := by
  have hpos := hsized.nItems_pos
  unfold unparseElement
  cases hdims : d.arrayDimensions with
  | nil =>
    have hlt : nSeq * d.nItems + 0 < items.length := by omega
    have hx := hok _ (List.getElem_mem hlt)
    rw [List.isEmpty_nil, if_pos rfl, unparseValue_item rfl (List.getElem?_eq_getElem hlt)]
    exact ⟨hinv.closes _ hx, fun _ hstruct => hinv.tight hstruct _ hx⟩
  | cons dimension rest =>
    rw [List.isEmpty_cons, if_neg Bool.false_ne_true, ← hdims, hsized.nItems]
    rw [hsized.nItems] at hroom
    have hne : d.arrayDimensions ≠ [] := by rw [hdims]; exact List.cons_ne_nil _ _
    refine ⟨(printsDimensions hinv hok nSeq d.arrayDimensions 0 hne hsized.positive ?_).closes,
      fun h => absurd h hne⟩
    rw [hsized.nItems]
    omega

/-- An element of a sequence is found as it is. -/
theorem tight_sequenceElement (hsized : d.Sized) {nSeq : Nat} (hroom : nSeq * d.nItems + d.nItems ≤ items.length) :
    Tight (unparseSequenceElement d p items nSeq) := by
  obtain ⟨hcloses, htight⟩ := unparseElement_spec hinv hok hsized hroom
  unfold unparseSequenceElement
  rw [hinv.isStruct]
  by_cases h : (!d.arrayDimensions.isEmpty || base.isStruct) = true
  · rw [if_pos h]
    exact tight_braced hcloses
  · rw [if_neg h]
    simp only [Bool.or_eq_true, Bool.not_eq_true', not_or, Bool.not_eq_false, Bool.not_eq_true] at h
    exact htight (List.isEmpty_iff.mp h.1) h.2

/-- An element is read into new places. -/
theorem ends_parseElement (hsized : d.Sized) (hvector : d.isVector = true) {nSeq : Nat}
    (hroom : nSeq * d.nItems + d.nItems ≤ items.length) (hafter : Ended after) {v : ValueState Datum} {ys : List Datum}
    (hys : v.items = .array ys) (hblank : Blank base.zero ys (nSeq * d.nItems) d.nItems) :
    Exc.Ends (fun _ w => ∃ ys', w.items = .array ys' ∧ Stored same items (nSeq * d.nItems) d.nItems ys ys')
      (fun _ _ => False) (parseElement d base (unparseElement d p items nSeq) after nSeq) v := by
  have hpos := hsized.nItems_pos
  unfold parseElement unparseElement
  cases hdims : d.arrayDimensions with
  | nil =>
    have hone : d.nItems = 1 := by
      rw [hsized.nItems, hdims]
      rfl
    have hlt : nSeq * d.nItems + 0 < items.length := by omega
    have hys' := hblank (nSeq * d.nItems) (Nat.le_refl _) (by omega)
    rw [List.isEmpty_nil, if_pos rfl, if_pos rfl, unparseValue_item rfl (List.getElem?_eq_getElem hlt)]
    refine (ends_parseValue_item hinv hvector (hok _ (List.getElem_mem hlt)) hafter rfl
      (List.getElem?_eq_getElem hlt) hys (List.getElem?_eq_some_iff.mp hys').1).imp ?_ fun _ _ h => h
    rintro _ w ⟨ys', hw, hstored⟩
    refine ⟨ys', hw, ?_⟩
    rw [hone] at hstored ⊢
    exact hstored
  | cons dimension rest =>
    rw [List.isEmpty_cons, if_neg Bool.false_ne_true, if_neg Bool.false_ne_true, ← hdims]
    have hne : d.arrayDimensions ≠ [] := by rw [hdims]; exact List.cons_ne_nil _ _
    have hprod := hsized.nItems
    have hread := readsDimensions hinv hok hvector nSeq d.arrayDimensions 0 hne hsized.positive
      (by omega) after v ys hafter hys
    rw [← hprod] at hread
    exact hread hblank

/-- In braces if it needs them. -/
theorem ends_sequenceElement (hsized : d.Sized) (hvector : d.isVector = true) {nSeq : Nat}
    (hroom : nSeq * d.nItems + d.nItems ≤ items.length) (hafter : Ended after) {v : ValueState Datum} {ys : List Datum}
    (hys : v.items = .array ys) (hblank : Blank base.zero ys (nSeq * d.nItems) d.nItems) :
    Exc.Ends (fun _ w => ∃ ys', w.items = .array ys' ∧ Stored same items (nSeq * d.nItems) d.nItems ys ys')
      (fun _ _ => False) (sequenceElement d base (unparseSequenceElement d p items nSeq) after nSeq) v := by
  unfold sequenceElement unparseSequenceElement needsCommaElement
  rw [hinv.isStruct]
  split_ifs
  · rw [inBraces_braced]
    exact ends_parseElement hinv hok hsized hvector hroom (ended_close after) hys hblank
  · exact ends_parseElement hinv hok hsized hvector hroom hafter hys hblank

end

/-! ## Sequences -/

/-- The text of a sequence: those of its elements, joined by commas. -/
theorem unparseSequence_eq (element : Nat → Text) (k : Nat) :
    unparseSequence element k 0 = joined ((List.range' 0 k).map element) := by
  have hothers : ∀ k n, n ≠ 0 →
      unparseSequence element k n = ending (others ((List.range' n k).map element)) := by
    intro k
    induction k with
    | zero => exact fun _ _ => rfl
    | succ k ih =>
      intro n hn
      rw [unparseSequence, if_pos hn, ih (n + 1) (Nat.succ_ne_zero n), List.range'_succ, List.map_cons, others, ending,
        joined_cons]
      rfl
  cases k with
  | zero => rfl
  | succ k =>
    rw [unparseSequence, if_neg (not_not_intro rfl), hothers k (0 + 1) (Nat.succ_ne_zero 0), List.range'_succ,
      List.map_cons, joined_cons]

/-- **The loop over the elements of a sequence** on texts that are found as they are. -/
theorem ends_sequenceLoop_tight (d : Decl) (base : Base Datum) (hafter : Ended after) :
    ∀ (us : List Text) (n : Nat) (v : ValueState Datum) (P : Nat → ValueState Datum → Prop), (∀ u ∈ us, Tight u) → P n v →
    (∀ i u, us[i]? = some u → ∀ rest w, Ended rest → P (n + i) w →
      Exc.Ends (fun _ w' => P (n + i + 1) w') (fun _ _ => False) (sequenceElement d base u rest (n + i)) w) →
    Exc.Ends (fun _ w => P (n + us.length) w) (fun _ _ => False) (sequenceLoop d base after us.length n (joined us)) v
  | [], _, _, _, _, hP, _ => hP
  | u :: us, n, v, P, htight, hP, hbody => by
    obtain ⟨hu, hus⟩ := List.forall_mem_cons.mp htight
    rw [joined_cons, List.length_cons, sequenceLoop, hu.found]
    dsimp only
    rw [others_getD]
    refine Exc.Ends.bind (hbody 0 u rfl (ending (others us) ++ after) v (ended_others hafter) hP) fun _ w hw => ?_
    have hlen : n + (us.length + 1) = n + 1 + us.length := by omega
    rw [hlen]
    refine ends_sequenceLoop_tight d base hafter us (n + 1) w P hus hw fun i u' hu' rest w' hrest hw' => ?_
    have hn : n + 1 + i = n + (i + 1) := by omega
    rw [hn] at hw' ⊢
    exact hbody (i + 1) u' hu' rest w' hrest hw'

/-! ## Whole values -/

/-- A value has as many items as its type says, and a sequence no more elements than it may have. -/
structure Decl.Shaped (d : Decl) (items : List Datum) : Prop where
  sized : d.Sized
  total : items.length < 2 ^ 64
  single : d.isSequence = false → items.length = d.nItems
  sequence : d.isSequence = true →
    ∃ n, items.length = n * d.nItems ∧ (d.sequenceLength ≠ 0 → n ≤ d.sequenceLength)

theorem forall₂_of_stored {ys : List Datum} (h : Stored same items 0 items.length (List.replicate items.length base.zero) ys) :
    List.Forall₂ same items ys := by
  have hlen : items.length = ys.length := by
    rw [h.length, List.length_replicate]
  refine List.forall₂_iff_get.mpr ⟨hlen, fun i hi hi' => ?_⟩
  obtain ⟨x, y, hx, hy, hsame⟩ := h.stored i (Nat.zero_le i) (by omega)
  rw [List.getElem?_eq_getElem hi, Option.some.injEq] at hx
  rw [List.getElem?_eq_getElem hi', Option.some.injEq] at hy
  subst hx
  subst hy
  exact hsame

theorem blank_replicate (zero : Datum) {n lo k : Nat} (h : lo + k ≤ n) : Blank zero (List.replicate n zero) lo k :=
  fun i _ hi => by
    rw [List.getElem?_replicate, if_pos (by omega)]

section

variable (hinv : Inverse base p ok same) (hok : ∀ x ∈ items, ok x)

include hinv hok

omit hinv hok in
/-- What the elements of an array leave in the places of the items is the value. -/
theorem parseNew_of_elements {n : Nat} (hvector : d.isVector = true)
    (hcount : ∀ v : ValueState Datum, v.nElements = 0 → elementCount d text false v = (.ok (), { v with nElements := n }))
    (hn : d.isSequence = true → n ≠ 0) (hbound : d.isSequence = true → d.sequenceLength ≠ 0 → n ≤ d.sequenceLength)
    (htotal : d.nItems * (if d.isSequence then n else 1) % 2 ^ 64 = items.length)
    (helements : ∀ v : ValueState Datum, v.nElements = n → v.items = .array (List.replicate items.length base.zero) →
      Exc.Ends (fun _ w => ∃ ys, w.items = .array ys ∧
          Stored same items 0 items.length (List.replicate items.length base.zero) ys)
        (fun _ _ => False) (parseElements d base text after false) v) :
    ∃ ys, parseNew d base text after = .ok ys ∧ List.Forall₂ same items ys := by
  obtain ⟨w, hrun, hw, hitems⟩ := parse_run text after base hcount hn hbound htotal
  refine of_parse (R := fun r => ∃ ys, r = .ok ys ∧ List.Forall₂ same items ys) ?_
  unfold Exc.Ends
  rw [hrun]
  change Exc.Ends _ _ _ _
  refine Exc.Ends.bind ((helements w hw (hitems hvector)).imp (fun _ _ h => h) fun _ _ h => h.elim) ?_
  rintro - w' ⟨ys, hys, hstored⟩
  refine ⟨ys, ?_, forall₂_of_stored hstored⟩
  rw [ValueState.contents, if_pos hvector, hys]

/-- A sequence is read back. -/
theorem parseNew_unparse_sequence (hshape : d.Shaped items) (hseq : d.isSequence = true) (hafter : Ended after) :
    ∃ ys, parseNew d base (unparse d p items) after = .ok ys ∧ List.Forall₂ same items ys := by
  obtain ⟨n, hlen, hbound⟩ := hshape.sequence hseq
  have hpos := hshape.sized.nItems_pos
  have hvector : d.isVector = true := by rw [Decl.isVector, hseq, Bool.true_or]
  have hn : d.elements items = n := by
    rw [Decl.elements, hlen, Nat.mul_div_cancel _ hpos]
  have htext : unparse d p items = joined ((List.range' 0 n).map (unparseSequenceElement d p items)) := by
    rw [unparse, if_pos hseq, hn, unparseSequence_eq]
  rw [htext]
  by_cases hzero : n = 0
  · subst hzero
    rw [Nat.zero_mul, List.length_eq_zero_iff] at hlen
    subst hlen
    have hblank : ∀ text ∈ ([[]] : List Text), whole 0 false text = true := by simp [whole]
    have hcount := elementCount_lone hseq hblank ⟨[], rfl, rfl⟩
    exact ⟨[], parseNew_empty base hseq hcount, .nil⟩
  · generalize hus : (List.range' 0 n).map (unparseSequenceElement d p items) = us
    have hcount : us.length = n := by
      rw [← hus, List.length_map, List.length_range']
    have hget {i : Nat} {u : Text} (hu : us[i]? = some u) :
        u = unparseSequenceElement d p items i ∧ i * d.nItems + d.nItems ≤ items.length := by
      obtain ⟨hlt, hu⟩ := List.getElem?_eq_some_iff.mp hu
      have hroom := element_le (j := i) (by omega) (show 0 + n * d.nItems ≤ items.length by omega)
      subst hus
      refine ⟨?_, by omega⟩
      rw [← hu]
      simp
    have htight : ∀ u ∈ us, Tight u := by
      intro u hu
      obtain ⟨i, hi⟩ := List.mem_iff_getElem?.mp hu
      obtain ⟨rfl, hroom⟩ := hget hi
      exact tight_sequenceElement hinv hok hshape.sized hroom
    have hne : us ≠ [] := fun h => hzero (by rw [← hcount, h]; rfl)
    have hlone : ¬Lone us := by
      rintro ⟨u, rfl, hblank⟩
      have hu := htight u List.mem_cons_self
      exact hu.ne_nil (hu.skip.symm.trans hblank)
    refine parseNew_of_elements hvector
      (fun v _ => elementCount_joined hseq hne (fun u hu => (htight u hu).whole) hlone v)
      (fun _ => hcount ▸ hzero) (fun _ => hcount ▸ hbound) ?_ fun v hv hys => ?_
    · rw [if_pos hseq, hcount, Nat.mul_comm, ← hlen, Nat.mod_eq_of_lt hshape.total]
    · unfold parseElements
      rw [Exc.ends_read_bind, if_pos hseq, if_neg Bool.false_ne_true, hv, hcount]
      have hloop := ends_sequenceLoop_tight d base hafter us 0 v
        (fun i w => ∃ ys, w.items = .array ys ∧
          Stored same items 0 (i * d.nItems) (List.replicate items.length base.zero) ys) htight
        ⟨_, hys, by rw [Nat.zero_mul]; exact stored_zero same items 0 _⟩
      rw [Nat.zero_add, hcount, ← hlen] at hloop
      refine hloop fun i u hu rest w hrest hw => ?_
      obtain ⟨ys, hw, hstored⟩ := hw
      obtain ⟨rfl, hroom⟩ := hget hu
      rw [Nat.zero_add] at hstored ⊢
      refine (ends_sequenceElement hinv hok hshape.sized hvector hroom hrest hw fun i' hi hi' => ?_).imp ?_ fun _ _ h => h
      · rw [hstored.other i' (Or.inr (by omega))]
        exact blank_replicate base.zero hroom i' hi hi'
      · rintro _ w' ⟨ys', hys', hstored'⟩
        rw [Nat.succ_mul]
        refine ⟨ys', hys', hstored.trans ?_⟩
        rw [Nat.zero_add]
        exact hstored'

/-- An array is read back. -/
theorem parseNew_unparse_array (hshape : d.Shaped items) (hseq : d.isSequence = false) (hvector : d.isVector = true)
    (hafter : Ended after) :
    ∃ ys, parseNew d base (unparse d p items) after = .ok ys ∧ List.Forall₂ same items ys := by
  have hlen := hshape.single hseq
  have hnot : ¬d.isSequence = true := by rw [hseq]; exact Bool.false_ne_true
  refine parseNew_of_elements hvector (fun v hv => elementCount_single _ hnot v hv) (fun h => absurd h hnot)
    (fun h => absurd h hnot) ?_ fun v _ hys => ?_
  · rw [if_neg hnot, Nat.mul_one, ← hlen, Nat.mod_eq_of_lt hshape.total]
  · unfold parseElements unparse
    rw [Exc.ends_read_bind, if_neg hnot, if_neg hnot]
    have hroom : 0 * d.nItems + d.nItems ≤ items.length := by omega
    have hread := ends_parseElement hinv hok hshape.sized hvector hroom hafter hys (blank_replicate base.zero hroom)
    rw [Nat.zero_mul] at hread
    rw [hlen] at hread ⊢
    exact hread

omit hok in
/-- `parseValue` sets the item of a single value. -/
theorem ends_parseValue_single (hvector : ¬d.isVector = true) {x : Datum} (hx : ok x) (hrest : Ended rest)
    (nSeq nArray : Nat) (v : ValueState Datum) :
    Exc.Ends (fun _ w => ∃ y, w.item = some y ∧ same x y) (fun _ _ => False)
      (parseValue d base (p.print x).1 rest nSeq nArray) v := by
  obtain ⟨y, n, hparse, hsame⟩ := hinv.parse x rest hx hrest
  unfold parseValue storeItem
  rw [hparse]
  dsimp only
  rw [Exc.ends_change_bind, Exc.ends_read_bind, if_neg hvector, Exc.ends_change]
  exact ⟨y, rfl, hsame⟩

/-- A single value is read back. -/
theorem parseNew_unparse_single (hshape : d.Shaped items) (hvector : ¬d.isVector = true) (hafter : Ended after) :
    ∃ ys, parseNew d base (unparse d p items) after = .ok ys ∧ List.Forall₂ same items ys := by
  obtain ⟨hseq, hdims⟩ : d.isSequence = false ∧ d.arrayDimensions = [] := by
    simpa [Decl.isVector] using hvector
  have hnot : ¬d.isSequence = true := by rw [hseq]; exact Bool.false_ne_true
  have hone : d.nItems = 1 := by
    rw [hshape.sized.nItems, hdims]
    rfl
  obtain ⟨x, rfl⟩ := List.length_eq_one_iff.mp ((hshape.single hseq).trans hone)
  have htext : unparse d p [x] = (p.print x).1 := by
    unfold unparse unparseElement
    rw [if_neg hnot, hdims, List.isEmpty_nil, if_pos rfl, unparseValue_item (Nat.zero_mul _) (show [x][0 + 0]? = some x from rfl)]
  obtain ⟨w, hrun, -, -⟩ := parse_run (p.print x).1 after base
    (fun v hv => elementCount_single _ hnot v hv) (fun h => absurd h hnot) (fun h => absurd h hnot)
    (show d.nItems * (if d.isSequence then 0 else 1) % 2 ^ 64 = 1 by
      rw [if_neg hnot, hone]
      rfl)
  rw [htext]
  refine of_parse (R := fun r => ∃ ys, r = .ok ys ∧ List.Forall₂ same [x] ys) ?_
  unfold Exc.Ends
  rw [hrun]
  change Exc.Ends _ _ _ _
  refine Exc.Ends.bind (P := fun _ w => ∃ y, w.item = some y ∧ same x y) ?_ ?_
  · unfold parseElements parseElement
    rw [Exc.ends_read_bind, if_neg hnot, hdims, List.isEmpty_nil, if_pos rfl]
    exact (ends_parseValue_single hinv hvector (hok x List.mem_cons_self) hafter 0 0 w).imp (fun _ _ h => h)
      fun _ _ h => h.elim
  · rintro - w' ⟨y, hy, hsame⟩
    refine ⟨[y], ?_, .cons hsame .nil⟩
    rw [ValueState.contents, if_neg hvector, hy]
    rfl

/-- **A value is read back** from what is printed of it, up to what its items may come back as. -/
theorem parseNew_unparse (hshape : d.Shaped items) (hafter : Ended after) :
    ∃ ys, parseNew d base (unparse d p items) after = .ok ys ∧ List.Forall₂ same items ys := by
  by_cases hvector : d.isVector = true
  · cases hseq : d.isSequence with
    | true => exact parseNew_unparse_sequence hinv hok hshape hseq hafter
    | false => exact parseNew_unparse_array hinv hok hshape hseq hvector hafter
  · exact parseNew_unparse_single hinv hok hshape hvector hafter

/-- What is printed of a value closes its braces; without commas of its own it is found as it is. -/
theorem unparse_spec (hshape : d.Shaped items) :
    closes 0 false (unparse d p items) = true ∧ (printsCommas d p = false → Tight (unparse d p items)) := by
  unfold unparse printsCommas
  cases hseq : d.isSequence with
  | true =>
    obtain ⟨n, hlen, -⟩ := hshape.sequence hseq
    rw [if_pos rfl, unparseSequence_eq, Decl.elements, hlen, Nat.mul_div_cancel _ hshape.sized.nItems_pos]
    refine ⟨closes_joined fun u hu => ?_, fun h => ?_⟩
    · obtain ⟨i, hi, rfl⟩ := List.mem_map.mp hu
      have hroom := element_le (j := i) (by simpa using hi) (show 0 + n * d.nItems ≤ items.length by omega)
      exact closes_of_whole (tight_sequenceElement hinv hok hshape.sized (by omega)).whole
    · rw [Decl.isVector, hseq] at h
      cases h
  | false =>
    rw [if_neg Bool.false_ne_true]
    have hroom : 0 * d.nItems + d.nItems ≤ items.length := by
      rw [hshape.single hseq]
      omega
    obtain ⟨hcloses, htight⟩ := unparseElement_spec hinv hok hshape.sized hroom
    refine ⟨hcloses, fun h => htight ?_ ?_⟩
    · simp only [Decl.isVector, hseq, Bool.false_or, Bool.or_eq_false_iff, Bool.not_eq_false', List.isEmpty_iff] at h
      exact h.1
    · rw [← hinv.isStruct]
      exact (Bool.or_eq_false_iff.mp h).2

end

end OpenCpi.Value
