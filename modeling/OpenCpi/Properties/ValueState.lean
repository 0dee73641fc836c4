import OpenCpi.Infra.Run
import OpenCpi.Properties.Element
import OpenCpi.Value.Datum

/-!
# Values that failed to parse

`parse` sets the counters of a value before it has the storage for them. A bounded sequence that is given
too many elements is left with a count of items that it does not hold, and an element that is added and
does not parse is counted. Storage that was deleted and not allocated again is used by the next call.
-/

namespace OpenCpi.Value

open Infra

variable {α : Type} {d : Decl} {base : Base α} {v : ValueState α} {c : Call} {text after : Text}
  {add : Bool}

/-! ## The property and the condition -/

/-- The counters describe the array of items that is held. -/
def Described (d : Decl) (v : ValueState α) : Prop :=
  v.nTotal = 0 ∨ ∃ items, v.items = .array items ∧ items.length = v.nTotal ∧
    v.nTotal = d.nItems * if d.isSequence then v.nElements else 1

/-- The parser of single values crashes on some text. -/
def Base.Crashes (base : Base α) : Prop := ∃ text after, (base.parse text after).1 = .error .crash

/-- What a call leaves behind: counters that describe the array, and where it failed to add an element
those from before. The program crashes only in the parser of single values. -/
structure Consistent (d : Decl) (base : Base α) (v : ValueState α) (c : Call) : Prop where
  described : Described d (parse d base c.text c.after c.add v).2
  failedAdd : c.add = true → (∃ e, (parse d base c.text c.after c.add v).1 = .error e) →
    (parse d base c.text c.after c.add v).2.nElements = v.nElements ∧
      (parse d base c.text c.after c.add v).2.items = v.items
  crash : (parse d base c.text c.after c.add v).1 = .error .crash → base.Crashes

/-- A number of elements is within the bound, and their items can be counted. -/
def Decl.Fits (d : Decl) (n : Nat) : Prop :=
  (d.sequenceLength ≠ 0 → n ≤ d.sequenceLength) ∧ d.nItems * n < 2 ^ 64

/-- The condition on a call that replaces the value: the pointer to structs is not to deleted storage, and
the elements fit. -/
structure Replaces (d : Decl) (v : ValueState α) (c : Call) : Prop where
  structs : v.structs ≠ .stale
  fits : d.isSequence = true → ∀ es, Splits c.text es → d.Fits es.length

/-- The condition on a call that adds an element: the base type allows it, there is no deleted storage,
and the element fits and parses. -/
structure Adds (d : Decl) (base : Base α) (v : ValueState α) (c : Call) : Prop where
  kind : base.isStruct = false ∧ base.isType = false
  strings : base.isString = true → d.isSequence = true ∧ v.movable = true
  storage : (∃ items, v.items = .array items) ∨ (v.items = .null ∧ v.length = 0)
  fits : d.isSequence = true → d.Fits (v.nElements + 1)
  element : (parseElement d base c.text c.after 0 { items := .array [] }).1 = .ok ()

def CallOk (d : Decl) (base : Base α) (v : ValueState α) (c : Call) : Prop :=
  if c.add then Adds d base v c else Replaces d v c

/-! ## Elements -/

/-- A relation of computations that holds for compound ones if it does for their parts. -/
structure Compatible (R : ∀ β : Type, ParseM α β → ParseM α β → Prop) : Prop where
  pure : ∀ {β : Type} (b : β), R β (pure b) (pure b)
  raise : ∀ {β : Type} (text : String), R β (raise text) (raise text)
  bind : ∀ {β γ : Type} {x y : ParseM α β} {f g : β → ParseM α γ}, R β x y → (∀ b, R γ (f b) (g b)) →
    R γ (x >>= f) (y >>= g)

section

variable {R : ∀ β : Type, ParseM α β → ParseM α β → Prop} (hR : Compatible R) {n n' : Nat}
  (hvalue : ∀ text after nArray,
    R Unit (parseValue d base text after n nArray) (parseValue d base text after n' nArray))

include hR

theorem related_dimensionLoop {body body' : Text → Text → Nat → ParseM α Unit}
    (h : ∀ text after offset, R Unit (body text after offset) (body' text after offset)) (skip : Nat)
    (after : Text) : ∀ (k : Nat) (first : Bool) (offset : Nat) (u : Text),
    R Text (dimensionLoop body skip after k first offset u) (dimensionLoop body' skip after k first offset u)
  | 0, _, _, _ => hR.pure _
  | k + 1, first, offset, u => by
    rw [dimensionLoop, dimensionLoop]
    rcases doElement u with ⟨⟨⟩ | ⟨err⟩, e⟩
    · dsimp only
      split
      · exact hR.pure _
      · exact hR.bind (h _ _ _) fun _ => related_dimensionLoop h skip after k false _ _
    · exact hR.raise _

include hvalue

theorem related_parseItem (text after : Text) (offset : Nat) :
    R Unit (parseItem d base n text after offset) (parseItem d base n' text after offset) := by
  unfold parseItem
  split
  · split
    · exact hR.raise _
    · exact hvalue _ _ _
  · exact hvalue _ _ _

theorem related_parseDimension : ∀ (dims : List Nat) (nItems offset : Nat) (text after : Text),
    R Unit (parseDimension d base n dims nItems offset text after)
      (parseDimension d base n' dims nItems offset text after)
  | [], _, _, _, _ => hR.pure _
  | dimension :: rest, nItems, offset, text, after => by
    rw [parseDimension, parseDimension]
    refine hR.bind (related_dimensionLoop hR ?_ _ _ _ _ _ _) fun excess => ?_
    · intro text after offset
      split
      · exact related_parseItem hR hvalue _ _ _
      · split
        · exact hR.raise _
        · exact related_parseDimension rest _ _ _ _
    · split
      · exact hR.pure _
      · exact hR.raise _

variable (n n') in
/-- **An element** is parsed by parsing single values. -/
theorem related_parseElement (text after : Text) :
    R Unit (parseElement d base text after n) (parseElement d base text after n') := by
  unfold parseElement
  split
  · exact hvalue _ _ _
  · exact related_parseDimension hR hvalue _ _ _ _ _

end

/-- A value with an array of as many items as it counts, and of the counted number of bytes. -/
structure Holding (counts : Nat × Nat) (v : ValueState α) : Prop where
  counts : (v.nElements, v.nTotal) = counts
  length : v.length = v.nTotal
  items : ∃ items, v.items = .array items ∧ items.length = v.nTotal

/-- A computation that changes the items of an array only. -/
def Stores {β : Type} (base : Base α) (x : ParseM α β) : Prop := ∀ counts v, Holding counts v →
  Exc.Ends (fun _ v' => Holding counts v')
    (fun e v' => Holding counts v' ∧ (e = .crash → base.Crashes)) x v

theorem stores_compatible (base : Base α) : Compatible fun _ x _ => Stores base x := by
  refine ⟨fun b counts v h => h, fun text counts v h => ⟨h, fun hc => by cases hc⟩, ?_⟩
  intro β γ x y f g hx hf counts v h
  exact (hx counts v h).bind fun b v' hv' => hf b counts v' hv'

theorem storeItem_run (hd : d.isVector = true) {items : List α} (hitems : v.items = .array items)
    (index : Nat) (x : α) :
    storeItem d index x v = (.ok (), { v with items := .array (items.set index x) }) := by
  unfold storeItem
  rw [Exc.run_read_bind, if_pos hd, hitems]
  rfl

theorem stores_parseValue (hd : d.isVector = true) (text after : Text) (nSeq nArray : Nat) :
    Stores base (parseValue d base text after nSeq nArray) := by
  intro counts v h
  unfold parseValue
  rw [Exc.ends_change_bind]
  have hmoved : Holding counts { v with stringNext := v.stringNext + (base.parse text after).2 } :=
    ⟨h.counts, h.length, h.items⟩
  match hr : (base.parse text after).1 with
  | .error (.message e) => exact ⟨hmoved, fun hc => by cases hc⟩
  | .error .crash => exact ⟨hmoved, fun _ => ⟨text, after, hr⟩⟩
  | .ok x =>
    obtain ⟨items, hitems, hlen⟩ := hmoved.items
    dsimp only
    unfold Exc.Ends
    rw [storeItem_run hd hitems]
    exact ⟨h.counts, h.length, _, rfl, (List.length_set ..).trans hlen⟩

theorem stores_parseElement (hd : d.isVector = true) (text after : Text) (n : Nat) :
    Stores base (parseElement d base text after n) := by
  have hvalue (text after : Text) (nArray : Nat) :
      Stores base (parseValue d base text after n nArray) := stores_parseValue hd text after n nArray
  exact related_parseElement (stores_compatible base) n n hvalue text after

theorem stores_sequenceElement (hd : d.isVector = true) (text after : Text) (n : Nat) :
    Stores base (sequenceElement d base text after n) := by
  unfold sequenceElement
  split
  · split
    · exact (stores_compatible base).raise _
    · exact stores_parseElement hd _ _ n
  · exact stores_parseElement hd _ _ n

theorem stores_sequenceLoop (hd : d.isVector = true) (after : Text) : ∀ (k n : Nat) (u : Text),
    Stores base (sequenceLoop d base after k n u)
  | 0, _, _ => (stores_compatible base).pure ()
  | k + 1, n, u => by
    intro counts v h
    rw [sequenceLoop]
    exact (stores_sequenceElement hd _ _ n counts v h).bind fun _ v' hv' =>
      stores_sequenceLoop hd after k (n + 1) _ counts v' hv'

/-- A value whose items lie in an array. -/
def HasItems (v : ValueState α) : Prop := ∃ items, v.items = .array items

/-- Computations with the same result. -/
def SameResult (β : Type) (x y : ParseM α β) : Prop := ∀ v w, HasItems v → HasItems w →
  (x v).1 = (y w).1 ∧ HasItems (x v).2 ∧ HasItems (y w).2

theorem sameResult_compatible : Compatible (SameResult (α := α)) := by
  refine ⟨fun b v w hv hw => ⟨rfl, hv, hw⟩, fun text v w hv hw => ⟨rfl, hv, hw⟩, ?_⟩
  intro β γ x y f g hx hf v w hv hw
  show (Exc.bind x f v).1 = (Exc.bind y g w).1 ∧ HasItems (Exc.bind x f v).2 ∧
    HasItems (Exc.bind y g w).2
  unfold Exc.bind
  obtain ⟨heq, hv', hw'⟩ := hx v w hv hw
  rcases hxv : x v with ⟨⟨e⟩ | ⟨b⟩, v'⟩ <;> rcases hyw : y w with ⟨⟨e'⟩ | ⟨b'⟩, w'⟩
  all_goals
    rw [hxv, hyw] at heq
    rw [hxv] at hv'
    rw [hyw] at hw'
    cases heq
  · exact ⟨rfl, hv', hw'⟩
  · exact hf b v' w' hv' hw'

/-- The place of a value does not matter for whether it parses. -/
theorem sameResult_parseValue (hd : d.isVector = true) (text after : Text) (n n' nArray : Nat) :
    SameResult Unit (parseValue d base text after n nArray) (parseValue d base text after n' nArray) := by
  rintro v w ⟨items, hv⟩ ⟨items', hw⟩
  unfold parseValue
  match hr : (base.parse text after).1 with
  | .error (.message e) => exact ⟨rfl, ⟨items, hv⟩, items', hw⟩
  | .error .crash => exact ⟨rfl, ⟨items, hv⟩, items', hw⟩
  | .ok x =>
    have hrun {u : ValueState α} {xs : List α} (hu : u.items = .array xs) (k : Nat) :
        ((Exc.change fun v => { v with stringNext := v.stringNext + (base.parse text after).2 }) >>=
          fun _ => storeItem d (k * d.nItems + nArray) x) u =
          (.ok (), { u with
            stringNext := u.stringNext + (base.parse text after).2
            items := .array (xs.set (k * d.nItems + nArray) x) }) := by
      exact storeItem_run hd (v := { u with
        stringNext := u.stringNext + (base.parse text after).2 }) hu _ x
    dsimp only
    rw [hrun hv, hrun hw]
    exact ⟨rfl, ⟨_, rfl⟩, _, rfl⟩

/-- **Whether an element parses** depends on its text only. -/
theorem sameResult_parseElement (hd : d.isVector = true) (text after : Text) (n n' : Nat) :
    SameResult Unit (parseElement d base text after n) (parseElement d base text after n') :=
  related_parseElement sameResult_compatible n n' (fun _ _ _ => sameResult_parseValue hd _ _ n n' _) text
    after

/-! ## Storage -/

/-- Between calls: the counters describe the array, and an array is as long as the counts say. -/
structure Inv (d : Decl) (v : ValueState α) : Prop where
  described : Described d v
  held : ∀ items, v.items = .array items → items.length = v.nTotal ∧ v.length = v.nTotal

theorem Holding.inv {counts : Nat × Nat} (h : Holding counts v)
    (hcount : counts.2 = d.nItems * if d.isSequence then counts.1 else 1) : Inv d v := by
  obtain ⟨items, hitems, hlen⟩ := h.items
  obtain ⟨hn, htotal⟩ := Prod.mk.inj h.counts
  rw [← hn, ← htotal] at hcount
  refine ⟨Or.inr ⟨items, hitems, hlen, hcount⟩, fun items' hitems' => ?_⟩
  rw [hitems] at hitems'
  cases hitems'
  exact ⟨hlen, h.length⟩

/-- `clear` leaves nothing. -/
theorem clear_inv (h : Inv d v) (hd : d.isVector = true) (hs : v.structs ≠ .stale) :
    Exc.Ends (fun _ v' => v'.nTotal = 0 ∧ Inv d v') (fun _ _ => False) (clear d) v := by
  unfold clear
  rw [Exc.ends_read_bind]
  split
  · next hnone =>
    cases hstructs : v.structs <;> rw [hstructs] at hnone hs
    · cases hnone
    · exact hs rfl
    · cases hnone
  · rw [Exc.ends_change_bind]
    unfold onlyIf
    by_cases htotal : v.nTotal = 0
    · rw [if_neg (fun hc => hc.1 htotal)]
      exact ⟨htotal, Or.inl htotal, h.held⟩
    · rw [if_pos ⟨htotal, hd⟩]
      obtain ⟨items, hitems, -⟩ := h.described.resolve_left htotal
      unfold clearItems
      rw [Exc.ends_read_bind]
      dsimp only
      rw [hitems]
      exact ⟨rfl, Or.inl rfl, fun items hc => by cases hc⟩

/-- The array has room for the old items and the new ones. -/
theorem grown_some (hstorage : add = true → (HasItems v ∨ (v.items = .null ∧ v.length = 0)) ∧
      ∀ items, v.items = .array items → items.length = v.length ∧ v.length ≤ v.nTotal) :
    ∃ items, grown base v add = some items ∧ items.length = v.nTotal := by
  unfold grown
  cases add with
  | false => exact ⟨_, rfl, List.length_replicate⟩
  | true =>
    obtain ⟨hstorage, hlen⟩ := hstorage rfl
    rcases hstorage with ⟨old, hold⟩ | ⟨hnull, hzero⟩
    · obtain ⟨hl, hle⟩ := hlen old hold
      refine ⟨old.take v.length ++ (List.replicate v.nTotal base.zero).drop v.length, ?_, ?_⟩
      · have hfits : v.length ≤ old.length ∧ v.length ≤ v.nTotal := ⟨Nat.le_of_eq hl.symm, hle⟩
        rw [hold]
        simp only [Bool.not_true, Bool.false_eq_true, if_false, if_pos hfits]
      · rw [List.length_append, List.length_take, List.length_drop, List.length_replicate, hl,
          Nat.min_self]
        omega
    · refine ⟨List.replicate v.nTotal base.zero, ?_, List.length_replicate⟩
      rw [hnull]
      simp only [Bool.not_true, Bool.false_eq_true, if_false, if_pos hzero]

/-- **`allocate`** gets the array unless there are too many elements. -/
theorem allocate_holding (hd : d.isVector = true) (hn : d.isSequence = true → v.nElements ≠ 0)
    (hbound : d.isSequence = true → d.sequenceLength ≠ 0 → v.nElements ≤ d.sequenceLength)
    (hgrown : ∃ items, grown base v add = some items ∧ items.length = v.nTotal)
    (hkind : add = true → base.isStruct = false ∧ base.isType = false) :
    Exc.Ends (fun _ v' => Holding (v.nElements, v.nTotal) v') (fun _ _ => False) (allocate d base add) v := by
  obtain ⟨items, hgrown, hlen⟩ := hgrown
  unfold allocate
  rw [Exc.ends_read_bind, if_neg (by simpa using hn), if_neg (by simpa using hbound)]
  unfold onlyIf
  rw [if_pos hd]
  unfold allocateItems
  refine Exc.Ends.bind (P := fun _ v' => v' = { v with items := .array items }) ?_ ?_
  · rw [Exc.ends_read_bind, hgrown]
    exact rfl
  · rintro - _ rfl
    rw [Exc.ends_change_bind]
    unfold allocateStructs
    have hholding (structs : Pointer Unit) : Holding (v.nElements, v.nTotal)
        { v with items := .array items, length := v.nTotal, structs } := ⟨rfl, rfl, items, rfl, hlen⟩
    split
    · next hc =>
      simp only [Bool.and_eq_true, Bool.or_eq_true] at hc
      obtain ⟨hstruct, htype⟩ := hkind hc.2
      rw [hstruct, htype] at hc
      simp at hc
    · unfold onlyIf
      split
      · exact hholding _
      · exact hholding _

theorem allocate_empty (hseq : d.isSequence = true) (hn : v.nElements = 0) :
    Exc.Ends (fun _ v' => v' = v) (fun _ _ => False) (allocate d base add) v := by
  unfold allocate
  rw [Exc.ends_read_bind, if_pos (by simp [hseq, hn])]
  exact rfl

/-! ## Calls -/

/-- The counters, and the array. -/
def arrayOf (v : ValueState α) : (Nat × Nat) × Pointer α × Nat :=
  ((v.nElements, v.nTotal), v.items, v.length)

theorem stringSpace_arrayOf {length : Nat}
    (h : add = true → d.isSequence = true ∧ v.movable = true) :
    Exc.Ends (fun _ v' => arrayOf v' = arrayOf v) (fun _ _ => False) (stringSpace d length add) v := by
  unfold stringSpace
  rw [Exc.ends_read_bind]
  split
  · next hc =>
    simp only [Bool.and_eq_true] at hc
    obtain ⟨hseq, hmovable⟩ := h hc.1
    rw [hseq, hmovable] at hc
    simp at hc
  · exact rfl

theorem inv_of_arrayOf {w : ValueState α} (h : Inv d v) (hw : arrayOf w = arrayOf v) : Inv d w := by
  obtain ⟨hcounts, hrest⟩ := Prod.mk.inj hw
  obtain ⟨hn, htotal⟩ := Prod.mk.inj hcounts
  obtain ⟨hitems, hlength⟩ := Prod.mk.inj hrest
  refine ⟨?_, ?_⟩
  · unfold Described
    rw [hn, htotal, hitems]
    exact h.described
  · rw [htotal, hitems, hlength]
    exact h.held

/-- Nothing is counted yet but the elements. -/
theorem inv_of_none (h : Inv d v) (htotal : v.nTotal = 0) (n : Nat) :
    Inv d { v with nElements := n } := ⟨Or.inl htotal, h.held⟩

theorem countElements_no_crash : ∀ (fuel : Nat) (u : Text) (v : ValueState α),
    (countElements fuel u v).1 ≠ .error .crash
  | 0, _, _ => fun h => by cases h
  | fuel + 1, u, v => by
    rw [countElements]
    rcases doElement u with ⟨⟨⟩ | ⟨err⟩, e⟩
    · dsimp only
      split
      · exact fun h => by cases h
      · exact countElements_no_crash fuel e.unparsed { v with nElements := v.nElements + 1 }
    · exact fun h => by cases h

/-- The first pass, when nothing is held. -/
theorem elementCount_replaces (h : Inv d v) (htotal : v.nTotal = 0)
    (hfits : d.isSequence = true → ∀ es, Splits text es → d.Fits es.length) :
    Exc.Ends (fun _ v' => (v'.nTotal = 0 ∧ Inv d v') ∧
        (d.isSequence = true → v'.nElements = 0 ∨ d.Fits v'.nElements))
      (fun e v' => Inv d v' ∧ e ≠ .crash) (elementCount d text false) v := by
  unfold elementCount
  rw [if_neg Bool.false_ne_true]
  by_cases hseq : d.isSequence = true
  · rw [if_pos hseq, Exc.ends_change_bind]
    have hkeep := keeps_countElements (fun v : ValueState α => (v.nTotal, v.items, v.length)) (fun _ _ => rfl)
      (text.length + 1) text { v with nElements := 0 }
    have hcrash := countElements_no_crash (text.length + 1) text { v with nElements := 0 }
    have hinv {w : ValueState α} (hw : (w.nTotal, w.items, w.length) = (v.nTotal, v.items, v.length)) :
        w.nTotal = 0 ∧ Inv d w := by
      obtain ⟨hnone, hrest⟩ := Prod.mk.inj hw
      obtain ⟨hitems, hlength⟩ := Prod.mk.inj hrest
      rw [htotal] at hnone
      refine ⟨hnone, Or.inl hnone, ?_⟩
      rw [hnone, hitems, hlength, ← htotal]
      exact h.held
    refine Exc.Ends.bind (P := fun _ v' => (v'.nTotal = 0 ∧ Inv d v') ∧ d.Fits v'.nElements) ?_ ?_
    · unfold Exc.Ends
      rcases hr : countElements (text.length + 1) text { v with nElements := 0 } with ⟨⟨e⟩ | ⟨len⟩, v'⟩
      · rw [hr] at hkeep hcrash
        exact ⟨(hinv hkeep).2, fun he => hcrash (congrArg Except.error he)⟩
      · rw [hr] at hkeep
        obtain ⟨es, hs, hcount, -⟩ := countElements_ok (Nat.lt_succ_self _) hr
        refine ⟨hinv hkeep, ?_⟩
        have hn : v'.nElements = es.length := by
          rw [hcount]
          exact Nat.zero_add _
        rw [hn]
        exact hfits hseq es hs
    · rintro len v' ⟨⟨hnone, hinv'⟩, hn⟩
      rw [Exc.ends_change]
      split
      · exact ⟨⟨hnone, inv_of_none hinv' hnone 0⟩, fun _ => Or.inl rfl⟩
      · exact ⟨⟨hnone, hinv'⟩, fun _ => Or.inr hn⟩
  · rw [if_neg hseq]
    exact ⟨⟨htotal, h⟩, fun hc => absurd hc hseq⟩

theorem nItems_lt (d : Decl) : d.nItems < 2 ^ 64 := Nat.mod_lt _ (by decide)

theorem total_eq {n : Nat} (h : d.isSequence = true → d.nItems * n < 2 ^ 64) :
    (d.nItems * if d.isSequence then n else 1) % 2 ^ 64 = d.nItems * if d.isSequence then n else 1 := by
  refine Nat.mod_eq_of_lt ?_
  split
  · exact h ‹_›
  · rw [Nat.mul_one]
    exact nItems_lt d

theorem stores_parseElements (hd : d.isVector = true) (add : Bool) :
    Stores base (parseElements d base text after add) := by
  intro counts v h
  unfold parseElements
  rw [Exc.ends_read_bind]
  split
  · split
    · exact stores_parseElement hd text after _ counts v h
    · exact stores_sequenceLoop hd after _ 0 text counts v h
  · exact stores_parseElement hd text after 0 counts v h

/-- What a call may do when it ends. -/
def Leaves (d : Decl) (base : Base α) (x : ParseM α Unit) : ValueState α → Prop :=
  Exc.Ends (fun _ v' => Inv d v') (fun e v' => Inv d v' ∧ (e = .crash → base.Crashes)) x

/-- The passes behind the count. -/
def fill (d : Decl) (base : Base α) (text after : Text) (add : Bool) : ParseM α Unit := do
  Exc.change fun v => { v with
    nTotal := d.nItems * (if d.isSequence then v.nElements else 1) % 2 ^ 64 }
  allocate d base add
  parseElements d base text after add
  Exc.change fun v => { v with parsed := true }

theorem leaves_elements (hd : d.isVector = true) {counts : Nat × Nat} (h : Holding counts v)
    (hcount : counts.2 = d.nItems * if d.isSequence then counts.1 else 1) :
    Leaves d base (parseElements d base text after add >>=
      fun _ => Exc.change fun v => { v with parsed := true }) v := by
  refine ((stores_parseElements hd add counts v h).imp (fun _ _ h => h) ?_).bind ?_
  · rintro e v' ⟨hv', hcrash⟩
    exact ⟨hv'.inv hcount, hcrash⟩
  · intro _ v' hv'
    exact Holding.inv (v := { v' with parsed := true }) ⟨hv'.counts, hv'.length, hv'.items⟩ hcount

/-- Filling an empty value. -/
theorem fill_replaces (hd : d.isVector = true) (htotal : v.nTotal = 0) (hinv : Inv d v)
    (hfits : d.isSequence = true → v.nElements = 0 ∨ d.Fits v.nElements) :
    Leaves d base (fill d base text after false) v := by
  unfold fill Leaves
  rw [Exc.ends_change_bind]
  by_cases hempty : d.isSequence = true ∧ v.nElements = 0
  · obtain ⟨hseq, hn⟩ := hempty
    have hzero : d.nItems * (if d.isSequence then v.nElements else 1) % 2 ^ 64 = v.nTotal := by
      rw [if_pos hseq, hn, htotal]
      exact Nat.zero_mod _
    rw [hzero]
    refine ((allocate_empty hseq hn).imp (fun _ _ h => h) (fun _ _ h => h.elim)).bind ?_
    rintro - v rfl
    have hloop : parseElements d base text after false v = (if d.isSequence then
        sequenceLoop d base after v.nElements 0 text
      else parseElement d base text after 0) v := rfl
    refine Exc.Ends.bind (P := fun _ v' => v' = v) ?_ ?_
    · unfold Exc.Ends
      rw [hloop, if_pos hseq, hn]
      exact rfl
    · rintro - v rfl
      exact ⟨hinv.described, hinv.held⟩
  · have hfit (hseq : d.isSequence = true) : d.Fits v.nElements :=
      (hfits hseq).resolve_left fun hn => hempty ⟨hseq, hn⟩
    have hcount : d.nItems * (if d.isSequence then v.nElements else 1) % 2 ^ 64 =
        d.nItems * if d.isSequence then v.nElements else 1 :=
      total_eq fun hseq => (hfit hseq).2
    rw [hcount]
    have hheld : Exc.Ends (fun _ v' => Holding
        (v.nElements, d.nItems * if d.isSequence then v.nElements else 1) v') (fun _ _ => False)
        (allocate d base false) { v with nTotal := d.nItems * if d.isSequence then v.nElements else 1 } :=
      allocate_holding hd (fun hseq hn => hempty ⟨hseq, hn⟩) (fun hseq => (hfit hseq).1)
        (grown_some fun hc => by cases hc) (fun hc => by cases hc)
    exact (hheld.imp (fun _ _ h => h) (fun _ _ h => h.elim)).bind fun _ v' hv' =>
      leaves_elements hd hv' rfl

/-- A call that replaces a value. -/
theorem parse_replaces (hd : d.isVector = true) (hinv : Inv d v) (h : Replaces d v ⟨text, after, false⟩) :
    Leaves d base (parse d base text after false) v := by
  unfold parse Leaves
  refine Exc.Ends.bind (P := fun _ v' => v'.nTotal = 0 ∧ Inv d v')
    ((clear_inv hinv hd h.structs).imp (fun _ _ h => h) (fun _ _ h => h.elim)) fun _ v hv => ?_
  refine Exc.Ends.bind (P := fun _ v' => v'.nTotal = 0 ∧ Inv d v') ?_ fun _ v hv => ?_
  · unfold onlyIf
    split
    · have hspace : Exc.Ends (fun _ v' => arrayOf v' = arrayOf v) (fun _ _ => False)
          (stringSpace d text.length false) v := stringSpace_arrayOf fun hc => by cases hc
      refine hspace.imp (fun _ v' hv' => ?_) (fun _ _ h => h.elim)
      exact ⟨(congrArg (fun r => r.1.2) hv').trans hv.1, inv_of_arrayOf hv.2 hv'⟩
    · exact hv
  refine ((elementCount_replaces hv.2 hv.1 h.fits).imp (fun _ _ h => h) ?_).bind fun _ v hv => ?_
  · rintro e v' ⟨hv', he⟩
    exact ⟨hv', fun hc => absurd hc he⟩
  · exact fill_replaces hd hv.1.1 hv.1.2 hv.2

/-- An element that parses alone parses as the one that is added. -/
theorem parseElements_adds (hd : d.isVector = true) {counts : Nat × Nat} (h : Holding counts v)
    (helement : (parseElement d base text after 0 { items := .array [] }).1 = .ok ()) :
    Exc.Ends (fun _ v' => Holding counts v') (fun _ _ => False)
      (parseElements d base text after true) v := by
  obtain ⟨items, hitems, -⟩ := h.items
  have hstores : Exc.Ends (fun _ v' => Holding counts v')
      (fun e v' => Holding counts v' ∧ (e = .crash → base.Crashes))
      (parseElements d base text after true) v := stores_parseElements hd true counts v h
  have hrun : parseElements d base text after true v = (if d.isSequence then
      parseElement d base text after (v.nElements - 1) else parseElement d base text after 0) v := by
    have hread : parseElements d base text after true v = (if d.isSequence then
        (if true then parseElement d base text after (v.nElements - 1)
          else sequenceLoop d base after v.nElements 0 text)
      else parseElement d base text after 0) v := rfl
    rw [hread, if_pos rfl]
  have hok : (parseElements d base text after true v).1 = .ok () := by
    have hsame (n : Nat) : (parseElement d base text after n v).1 = .ok () :=
      (sameResult_parseElement hd text after n 0 v { items := .array [] } ⟨items, hitems⟩
        ⟨[], rfl⟩).1.trans helement
    rw [hrun]
    split
    · exact hsame _
    · exact hsame 0
  unfold Exc.Ends at hstores ⊢
  rcases hr : parseElements d base text after true v with ⟨⟨e⟩ | ⟨b⟩, v'⟩
  · rw [hr] at hok
    cases hok
  · rw [hr] at hstores
    exact hstores

/-- The new element has its place behind those that are held. -/
theorem total_grows (hinv : Inv d v) :
    v.nTotal ≤ d.nItems * if d.isSequence then v.nElements + 1 else 1 := by
  rcases hinv.described with hzero | ⟨-, -, -, htotal⟩
  · rw [hzero]
    exact Nat.zero_le _
  · rw [htotal]
    refine Nat.mul_le_mul_left _ ?_
    split
    · exact Nat.le_succ _
    · exact Nat.le_refl _

/-- Filling in one more element. -/
theorem fill_adds (hd : d.isVector = true) (hinv : Inv d v)
    (hkind : base.isStruct = false ∧ base.isType = false)
    (hstorage : HasItems v ∨ (v.items = .null ∧ v.length = 0))
    (hfits : d.isSequence = true → d.Fits (v.nElements + 1))
    (helement : (parseElement d base text after 0 { items := .array [] }).1 = .ok ()) :
    Exc.Ends (fun _ v' => Inv d v') (fun _ _ => False) (fill d base text after true)
      { v with nElements := v.nElements + 1 } := by
  unfold fill
  rw [Exc.ends_change_bind]
  have hcount : d.nItems * (if d.isSequence then v.nElements + 1 else 1) % 2 ^ 64 =
      d.nItems * if d.isSequence then v.nElements + 1 else 1 := total_eq fun hseq => (hfits hseq).2
  dsimp only
  rw [hcount]
  have hroom (items : List α) (hitems : v.items = .array items) : items.length = v.length ∧
      v.length ≤ d.nItems * if d.isSequence then v.nElements + 1 else 1 := by
    obtain ⟨hlen, hlength⟩ := hinv.held items hitems
    rw [hlength]
    exact ⟨hlen, total_grows hinv⟩
  have hheld : Exc.Ends (fun _ v' => Holding
      (v.nElements + 1, d.nItems * if d.isSequence then v.nElements + 1 else 1) v') (fun _ _ => False)
      (allocate d base true) { v with
        nElements := v.nElements + 1
        nTotal := d.nItems * if d.isSequence then v.nElements + 1 else 1 } :=
    allocate_holding hd (fun _ => Nat.succ_ne_zero _) (fun hseq => (hfits hseq).1)
      (grown_some fun _ => ⟨hstorage, hroom⟩) (fun _ => hkind)
  refine hheld.bind fun _ v' hv' => ?_
  refine (parseElements_adds hd hv' helement).bind fun _ v' hv' => ?_
  exact Holding.inv (v := { v' with parsed := true }) ⟨hv'.counts, hv'.length, hv'.items⟩ rfl

/-- A call that adds an element succeeds. -/
theorem parse_adds (hd : d.isVector = true) (hinv : Inv d v) (h : Adds d base v ⟨text, after, true⟩) :
    Exc.Ends (fun _ v' => Inv d v') (fun _ _ => False) (parse d base text after true) v := by
  unfold parse
  refine Exc.Ends.bind (P := fun _ v' => v' = v) rfl fun _ w hw => ?_
  subst hw
  refine Exc.Ends.bind (P := fun _ v' => arrayOf v' = arrayOf w) ?_ fun _ v hv => ?_
  · unfold onlyIf
    split
    · next hstring => exact stringSpace_arrayOf fun _ => h.strings hstring
    · exact rfl
  obtain ⟨hcounts, hrest⟩ := Prod.mk.inj hv
  obtain ⟨hn, -⟩ := Prod.mk.inj hcounts
  obtain ⟨hitems, hlength⟩ := Prod.mk.inj hrest
  have hcount : Exc.Ends (fun _ v' => v' = { v with nElements := v.nElements + 1 }) (fun _ _ => False)
      (elementCount d text true) v := by
    unfold elementCount
    rw [if_pos rfl]
    exact rfl
  refine hcount.bind ?_
  rintro - _ rfl
  refine fill_adds hd (inv_of_arrayOf hinv hv) h.kind ?_ ?_ h.element
  · unfold HasItems
    rw [hitems, hlength]
    exact h.storage
  · rw [hn]
    exact h.fits

/-- **Step**: a call that meets the condition leaves a consistent value. -/
theorem parse_inv (hd : d.isVector = true) (hinv : Inv d v) (hc : CallOk d base v c) :
    Leaves d base (parse d base c.text c.after c.add) v := by
  obtain ⟨text, after, add⟩ := c
  unfold CallOk at hc
  cases add with
  | false => exact parse_replaces hd hinv hc
  | true => exact (parse_adds hd hinv hc).imp (fun _ _ h => h) fun _ _ h => h.elim

/-- **Run**: the counters describe the array between calls. -/
theorem reach_inv (hd : d.isVector = true) (h : Reach (parseStep d base) (CallOk d base) {} v) :
    Inv d v := by
  refine h.invariant ⟨Or.inl rfl, fun _ hitems => by cases hitems⟩ fun v c v' hinv hc hstep => ?_
  have hleaves := parse_inv hd hinv hc
  unfold Leaves Exc.Ends at hleaves
  unfold parseStep at hstep
  rcases hr : parse d base c.text c.after c.add v with ⟨⟨e⟩ | ⟨b⟩, w⟩
  · rw [hr] at hstep hleaves
    cases e with
    | message text =>
      cases hstep
      exact hleaves.1
    | crash => cases hstep
  · rw [hr] at hstep hleaves
    cases hstep
    exact hleaves

/-- **Every call leaves a consistent value**, if no call in the run gives a bounded sequence more elements
than it may have or works on deleted storage, and what is added parses. -/
theorem consistent_of_callOk (d : Decl) (base : Base α) (hd : d.isVector = true) (v : ValueState α) (c : Call)
    (h : Reach (parseStep d base) (CallOk d base) {} v) (hc : CallOk d base v c) :
    Consistent d base v c := by
  have hinv := reach_inv hd h
  have hleaves := parse_inv hd hinv hc
  unfold Leaves Exc.Ends at hleaves
  refine ⟨?_, fun hadd hfail => ?_, fun hcrash => ?_⟩
  · rcases hr : parse d base c.text c.after c.add v with ⟨⟨e⟩ | ⟨b⟩, w⟩
    · rw [hr] at hleaves
      exact hleaves.1.described
    · rw [hr] at hleaves
      exact hleaves.described
  · obtain ⟨text, after, add⟩ := c
    cases hadd
    obtain ⟨e, he⟩ := hfail
    have hends := parse_adds hd hinv hc
    unfold Exc.Ends at hends
    rcases hr : parse d base text after true v with ⟨⟨e⟩ | ⟨b⟩, w⟩
    · rw [hr] at hends
      exact hends.elim
    · rw [hr] at he
      cases he
  · rcases hr : parse d base c.text c.after c.add v with ⟨⟨e⟩ | ⟨b⟩, w⟩
    · rw [hr] at hleaves hcrash
      exact hleaves.2 (Except.error.inj hcrash)
    · rw [hr] at hcrash
      cases hcrash

/-- A sequence of `ushort` with at most `bound` elements, or with any number if it is 0. -/
def shorts (bound : Nat) : Decl where
  name := [110]
  arrayDimensions := []
  isSequence := true
  sequenceLength := bound

/-- `1,2` and then `3` as one more element. -/
theorem consistent_shorts : ∃ v : ValueState Datum,
    exec (parseStep (shorts 0) (Scalar.ushort.base fun _ _ => none)) {}
      [⟨[49, 44, 50], [], false⟩] = some v ∧
    Consistent (shorts 0) (Scalar.ushort.base fun _ _ => none) v ⟨[51], [], true⟩ := by
  have hfirst : CallOk (shorts 0) (Scalar.ushort.base fun _ _ => none) {} ⟨[49, 44, 50], [], false⟩ := by
    refine Replaces.mk (fun hc => by cases hc) fun _ es hs => ⟨fun hc => absurd rfl hc, ?_⟩
    have hlen : es.length ≤ 4 := hs.length_le
    have hone : (shorts 0).nItems = 1 := rfl
    rw [hone]
    omega
  obtain ⟨v, hv, hn, hitems⟩ : ∃ v : ValueState Datum,
      parseStep (shorts 0) (Scalar.ushort.base fun _ _ => none) {} ⟨[49, 44, 50], [], false⟩ = some v ∧
        v.nElements = 2 ∧ v.items = .array [.int 1, .int 2] := ⟨_, rfl, rfl, rfl⟩
  have hreach : Reach (parseStep (shorts 0) (Scalar.ushort.base fun _ _ => none))
      (CallOk (shorts 0) (Scalar.ushort.base fun _ _ => none)) {} v :=
    Relation.ReflTransGen.single ⟨_, hfirst, hv⟩
  refine ⟨v, ?_, consistent_of_callOk (shorts 0) _ rfl v ⟨[51], [], true⟩ hreach ?_⟩
  · unfold exec exec
    rw [hv]
    rfl
  · refine Adds.mk ⟨rfl, rfl⟩ (fun hc => by cases hc) (Or.inl ⟨_, hitems⟩) (fun _ => ?_) rfl
    rw [hn]
    exact ⟨fun hc => absurd rfl hc, by decide⟩

/-- `1,2` for a sequence of at most one element: two items are counted and none are held. -/
theorem overflow_counted : ¬ ∀ (d : Decl) (base : Base Datum) (v : ValueState Datum) (c : Call),
    d.isVector = true → Reach (parseStep d base) anyStep {} v →
      Described d (parse d base c.text c.after c.add v).2 := by
  intro h
  have hdescribed := h (shorts 1) (Scalar.ushort.base fun _ _ => none) {} ⟨[49, 44, 50], [], false⟩ rfl
    Relation.ReflTransGen.refl
  rcases hdescribed with hzero | ⟨items, hitems, -⟩
  · exact absurd hzero (by decide)
  · cases hitems

end OpenCpi.Value
