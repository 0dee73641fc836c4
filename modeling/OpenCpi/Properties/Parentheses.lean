import OpenCpi.Expr.Tree
import OpenCpi.Infra.Yields

/-!
# Parentheses of expressions

The last open parenthesis is found again by a search, and the tokens in front of it are not touched until it is
closed. So what stands in parentheses is evaluated alone and replaced by its value, in any context.
-/

namespace OpenCpi.Expr

open Value Infra

variable {s s' outer : State} {tokens front : List ExprToken} {t v : ExprToken} {n l : Nat}

/-! ## The last open parenthesis -/

/-- How many parentheses are open in some tokens. -/
def openCount (tokens : List ExprToken) : Nat := tokens.countP fun t => t.op = .lpar

@[simp] theorem openCount_nil : openCount [] = 0 := rfl

@[simp] theorem openCount_append (tokens more : List ExprToken) :
    openCount (tokens ++ more) = openCount tokens + openCount more := List.countP_append

theorem openCount_singleton (t : ExprToken) : openCount [t] = if t.op = .lpar then 1 else 0 := by
  simp [openCount, List.countP_cons]

theorem openCount_eq_zero : openCount tokens = 0 ↔ ∀ t ∈ tokens, t.op ≠ .lpar := by
  simp [openCount, List.countP_eq_zero]

theorem openCount_take_succ (tokens : List ExprToken) (n : Nat) : openCount (tokens.take (n + 1)) =
    openCount (tokens.take n) + if tokens[n]?.map (·.op) = some .lpar then 1 else 0 := by
  rw [List.take_add_one, openCount_append]
  cases tokens[n]? with
  | none => rfl
  | some t => simp [openCount_singleton]

theorem lparBelow_eq_none : lparBelow tokens n = none ↔ openCount (tokens.take n) = 0 := by
  induction n with
  | zero => simp [lparBelow]
  | succ n ih =>
    rw [lparBelow, openCount_take_succ]
    split_ifs
    · simp
    · simpa using ih

theorem lparBelow_spec (h : lparBelow tokens n = some l) :
    l < n ∧ tokens[l]?.map (·.op) = some .lpar ∧ openCount (tokens.take n) = openCount (tokens.take l) + 1 := by
  induction n with
  | zero => cases h
  | succ n ih =>
    rw [lparBelow] at h
    rw [openCount_take_succ]
    split_ifs at h ⊢ with hn
    · obtain rfl := Option.some.inj h
      exact ⟨Nat.lt_succ_self n, hn, rfl⟩
    · obtain ⟨hlt, hl, hcount⟩ := ih h
      exact ⟨Nat.lt_succ_of_lt hlt, hl, hcount⟩

/-- The search does not see what is behind its start. -/
theorem lparBelow_append (tokens more : List ExprToken) (h : n ≤ tokens.length) :
    lparBelow (tokens ++ more) n = lparBelow tokens n := by
  induction n with
  | zero => rfl
  | succ n ih =>
    rw [lparBelow, lparBelow, ih (Nat.le_of_succ_le h), List.getElem?_append_left h]

/-- Nor what is in front of what it finds. -/
theorem lparBelow_behind (front tokens : List ExprToken) (h : lparBelow tokens n = some l) :
    lparBelow (front ++ tokens) (front.length + n) = some (front.length + l) := by
  induction n with
  | zero => cases h
  | succ n ih =>
    rw [lparBelow] at h
    rw [← Nat.add_assoc, lparBelow, List.getElem?_append_right (Nat.le_add_right _ _), Nat.add_sub_cancel_left]
    split_ifs at h ⊢
    · cases h
      rfl
    · exact ih h

/-- It passes what is no parenthesis. -/
theorem lparBelow_skip (front more : List ExprToken) (h : openCount more = 0) (k : Nat) :
    lparBelow (front ++ more) (front.length + k) = lparBelow (front ++ more) front.length := by
  induction k with
  | zero => rfl
  | succ k ih =>
    rw [← Nat.add_assoc, lparBelow, List.getElem?_append_right (Nat.le_add_right _ _), Nat.add_sub_cancel_left, if_neg, ih]
    intro hk
    obtain ⟨t, ht, hop⟩ := Option.map_eq_some_iff.mp hk
    exact openCount_eq_zero.mp h t (List.mem_of_getElem? ht) hop

/-! ## Places of operators -/

/-- A token that has a value, or may stand for one. -/
def ExprToken.isValue (t : ExprToken) : Prop := OpCode.opEnd.code ≤ t.op.code

/-- An operator with a value in front of it. -/
def ExprToken.isBinary (t : ExprToken) : Prop :=
  t.op.action = .arithmetic ∨ t.op.action = .compare ∨ t.op.action = .logical

theorem isValue_number (n : Int) : (ExprToken.number n).isValue := (by decide : OpCode.opEnd.code ≤ OpCode.number.code)

theorem isValue_string (s : Text) : (ExprToken.string s).isValue := (by decide : OpCode.opEnd.code ≤ OpCode.string.code)

theorem isBinary_not_isValue (h : t.isBinary) : ¬t.isValue := by
  unfold ExprToken.isBinary at h
  unfold ExprToken.isValue
  generalize t.op = op at h
  revert h
  cases op <;> decide

theorem not_isValue_lpar (h : t.op = .lpar) : ¬t.isValue := by
  unfold ExprToken.isValue
  rw [h]
  decide

/-- Every binary operator of some tokens in reverse order has its value. -/
def Placed : List ExprToken → Prop
  | [] => True
  | t :: front => (t.isBinary → ∃ l front', front = l :: front' ∧ l.isValue) ∧ Placed front

theorem Placed.drop {front' : List ExprToken} (h : Placed (front ++ front')) : Placed front' := by
  induction front with
  | nil => exact h
  | cons t front ih => exact ih h.2

/-- Tokens keep their values if no value is cut off from them. -/
theorem Placed.take {front' : List ExprToken} (h : Placed (front ++ front'))
    (hcut : ∀ t, front'.head? = some t → ¬t.isValue) : Placed front := by
  induction front with
  | nil => trivial
  | cons t front ih =>
    refine ⟨fun ht => ?_, ih h.2⟩
    obtain ⟨l, rest, hl, hvalue⟩ := h.1 ht
    change front ++ front' = l :: rest at hl
    cases front with
    | nil => exact absurd hvalue (hcut l (congrArg List.head? hl))
    | cons u front =>
      cases hl
      exact ⟨_, _, rfl, hvalue⟩

theorem applyArithmetic_yields {op : OpCode} {l : ExprToken} (hl : l.isValue) :
    Yields ExprToken.isValue (fun e => e ≠ .bounds) (applyArithmetic op l t) := by
  unfold applyArithmetic
  split
  · split
    · exact isValue_number _
    · exact Fault.noConfusion
  · split_ifs
    · exact Fault.noConfusion
    · exact hl
  · exact hl

theorem applyCompare_yields (op : OpCode) (l t : ExprToken) :
    Yields ExprToken.isValue (fun e => e ≠ .bounds) (applyCompare op l t) := by
  unfold applyCompare
  split
  · exact isValue_number _
  · exact isValue_number _
  · exact Fault.noConfusion

/-- **The value of some tokens** is a value, unless it is the only token. No token is missed. -/
theorem reduceLoop_yields (hfront : Placed front) :
    Yields (fun v => front = [] ∧ v = t ∨ v.isValue) (fun e => e ≠ .bounds) (reduceLoop t front) := by
  have hnone {o : ExprToken} (ho : o.isBinary) (hplaced : Placed [o]) : False := by
    obtain ⟨l, front', hl, -⟩ := hplaced.1 ho
    cases hl
  have hleft {o l : ExprToken} {front : List ExprToken} (ho : o.isBinary) (hplaced : Placed (o :: l :: front)) :
      l.isValue := by
    obtain ⟨l', front', hl, hvalue⟩ := hplaced.1 ho
    cases hl
    exact hvalue
  -- what a value is replaced by is a value again
  have hnext {p : Prop} {q : ExprToken → Prop} {t' : ExprToken} {x : Except Fault ExprToken} (ht' : t'.isValue)
      (h : Yields (fun v => p ∧ v = t' ∨ v.isValue) (fun e => e ≠ .bounds) x) :
      Yields (fun v => q v ∨ v.isValue) (fun e => e ≠ .bounds) x := by
    refine h.imp (fun v hv => Or.inr ?_) fun _ h => h
    rcases hv with ⟨-, rfl⟩ | hv
    · exact ht'
    · exact hv
  fun_induction reduceLoop t front with
  | case1 t => exact Or.inl ⟨rfl, rfl⟩
  | case2 t o front e hcheck =>
    unfold checkOperand at hcheck
    split_ifs at hcheck <;> cases hcheck <;> exact Fault.noConfusion
  | case3 => exact Fault.noConfusion
  | case4 t o front hcheck haction v hv ih => exact hnext (isValue_number _) (ih hfront.2)
  | case5 t o hcheck l front haction ih =>
    exact (applyArithmetic_yields (hleft (Or.inl haction) hfront)).bind fun l' hl' => hnext hl' (ih l' hfront.2.2)
  | case6 t o hcheck l front haction ih =>
    exact (applyCompare_yields o.op l t).bind fun l' hl' => hnext hl' (ih l' hfront.2.2)
  | case7 t o hcheck l front haction ih => exact hnext (isValue_number _) (ih hfront.2.2)
  | case8 t o hcheck haction => exact (hnone (Or.inl haction) hfront).elim
  | case9 t o hcheck haction => exact (hnone (Or.inr (Or.inl haction)) hfront).elim
  | case10 t o hcheck haction => exact (hnone (Or.inr (Or.inr haction)) hfront).elim
  | case12 t o hcheck b q c front haction hvalue ih =>
    refine hnext ?_ (ih hfront.2.2.2.2)
    have ht : t.isValue := by
      unfold checkOperand at hcheck
      split_ifs at hcheck with h₁ h₂ h₃
      exact Nat.le_of_not_le h₃
    split_ifs
    · exact Nat.le_of_not_le fun hb => hvalue (Or.inr hb)
    · exact ht
  | case11 | case13 | case14 => exact Fault.noConfusion

/-! ## The tokens of a state -/

/-- The last open parenthesis is known, they are counted, and binary operators have their values. -/
structure State.Ok (s : State) : Prop where
  lpar : s.lpar = lparBelow s.tokens s.tokens.length
  nParens : s.nParens = openCount s.tokens
  placed : Placed s.tokens.reverse

theorem ok_start : ({} : State).Ok := ⟨rfl, rfl, trivial⟩

/-- A token that may be the only one of its parentheses. -/
def ExprToken.isPlain (t : ExprToken) : Prop := t.op ≠ .lpar ∧ ¬t.isBinary

theorem isPlain_of_isValue (h : t.isValue) : t.isPlain :=
  ⟨fun hop => not_isValue_lpar hop h, fun hbinary => isBinary_not_isValue hbinary h⟩

theorem reduce_yields (hcount : openCount tokens = 0) (hplaced : Placed tokens.reverse) :
    Yields (fun v => v.isPlain ∧ ∀ last, tokens.getLast? = some last → last.isValue → v.isValue) (fun e => e ≠ .bounds)
      (reduce tokens) := by
  unfold reduce
  rw [← List.head?_reverse]
  have hmem (t : ExprToken) : t ∈ tokens.reverse → t.op ≠ .lpar := fun ht =>
    openCount_eq_zero.mp hcount t (List.mem_reverse.mp ht)
  generalize tokens.reverse = front at hplaced hmem
  cases front with
  | nil => exact Fault.noConfusion
  | cons t front =>
    refine (reduceLoop_yields hplaced.2).imp (fun v hv => ?_) fun _ h => h
    rcases hv with ⟨rfl, rfl⟩ | hv
    · refine ⟨⟨hmem v List.mem_cons_self, fun hbinary => ?_⟩, fun last hlast hvalue => ?_⟩
      · obtain ⟨l, front', hl, -⟩ := hplaced.1 hbinary
        cases hl
      · cases hlast
        exact hvalue
    · exact ⟨isPlain_of_isValue hv, fun _ _ _ => hv⟩

/-- What is open in front of the tokens that are evaluated, and these themselves. -/
theorem State.Ok.slice (hs : s.Ok) : s.start ≤ s.tokens.length ∧ lparBelow s.tokens s.start = s.lpar ∧
    openCount (s.tokens.take s.start) = s.nParens ∧ openCount (s.tokens.drop s.start) = 0 ∧
    Placed (s.tokens.drop s.start).reverse := by
  have hsum : openCount s.tokens = openCount (s.tokens.take s.start) + openCount (s.tokens.drop s.start) := by
    rw [← openCount_append, List.take_append_drop]
  have hreverse : s.tokens.reverse = (s.tokens.drop s.start).reverse ++ (s.tokens.take s.start).reverse := by
    rw [← List.reverse_append, List.take_append_drop]
  have hplaced := hs.placed
  rw [hreverse] at hplaced
  have hn := hs.nParens
  cases hl : s.lpar with
  | none =>
    have hstart : s.start = 0 := by rw [State.start, hl]
    have hzero := lparBelow_eq_none.mp (hs.lpar.symm.trans hl)
    rw [List.take_length] at hzero
    rw [hstart] at hsum hplaced ⊢
    refine ⟨Nat.zero_le _, rfl, ?_, ?_, hplaced.take fun t ht => by cases ht⟩
    · rw [hn, hzero]
      rfl
    · exact hzero
  | some l =>
    have hstart : s.start = l + 1 := by rw [State.start, hl]
    obtain ⟨hlt, hopen, hcount⟩ := lparBelow_spec (hs.lpar.symm.trans hl)
    rw [List.take_length] at hcount
    have htake := openCount_take_succ s.tokens l
    rw [if_pos hopen] at htake
    rw [hstart] at hsum hplaced ⊢
    refine ⟨hlt, ?_, by omega, by omega, hplaced.take fun t ht => ?_⟩
    · rw [lparBelow, if_pos hopen]
    · obtain ⟨u, hu, hlpar⟩ := Option.map_eq_some_iff.mp hopen
      rw [List.head?_reverse, List.getLast?_take, if_neg (Nat.succ_ne_zero l), Nat.add_sub_cancel, hu] at ht
      cases ht
      exact not_isValue_lpar hlpar

/-- Tokens that are no parentheses, each in its place. -/
theorem ok_append {start : Nat} {more : List ExprToken} (hle : start ≤ s.tokens.length)
    (hlpar : lparBelow s.tokens start = s.lpar) (hcount : openCount (s.tokens.take start) = s.nParens)
    (hmore : openCount more = 0) (hplaced : Placed (more.reverse ++ (s.tokens.take start).reverse)) :
    ({ s with tokens := s.tokens.take start ++ more } : State).Ok where
  lpar := by
    have hlen : (s.tokens.take start).length = start := List.length_take_of_le hle
    show s.lpar = lparBelow (s.tokens.take start ++ more) _
    rw [List.length_append, lparBelow_skip _ _ hmore, lparBelow_append _ _ (Nat.le_refl _), hlen, ← hlpar]
    conv_lhs => rw [← List.take_append_drop start s.tokens]
    exact lparBelow_append _ _ (Nat.le_of_eq hlen.symm)
  nParens := by
    rw [openCount_append, hmore, hcount]
    rfl
  placed := by
    rw [List.reverse_append]
    exact hplaced

theorem State.Ok.push (hs : s.Ok) (ht : t.op ≠ .lpar)
    (hleft : t.isBinary → ∃ last, s.tokens.getLast? = some last ∧ last.isValue) : (s.push t).Ok := by
  have hall : s.tokens.take s.tokens.length = s.tokens := List.take_length
  have hnone : openCount [t] = 0 := by
    rw [openCount_singleton, if_neg ht]
  have h := ok_append (Nat.le_refl _) hs.lpar.symm (by rw [hall, hs.nParens]) hnone (by
      rw [hall]
      refine ⟨fun hbinary => ?_, hs.placed⟩
      obtain ⟨last, hlast, hvalue⟩ := hleft hbinary
      rw [← List.head?_reverse] at hlast
      obtain ⟨front, hfront⟩ := List.head?_eq_some_iff.mp hlast
      exact ⟨last, front, hfront, hvalue⟩)
  rwa [hall] at h

theorem State.Ok.open (hs : s.Ok) : (openParen s).Ok where
  lpar := by
    show some s.tokens.length = lparBelow (s.tokens ++ [.operator .lpar]) (s.tokens ++ [ExprToken.operator .lpar]).length
    rw [List.length_append, List.length_singleton, lparBelow, List.getElem?_append_right (Nat.le_refl _), Nat.sub_self]
    exact (if_pos rfl).symm
  nParens := by
    show s.nParens + 1 = openCount (s.tokens ++ [.operator .lpar])
    rw [openCount_append, hs.nParens]
    rfl
  placed := by
    show Placed (s.tokens ++ [ExprToken.operator .lpar]).reverse
    rw [List.reverse_append]
    refine ⟨fun h => ?_, hs.placed⟩
    rcases h with h | h | h <;> cases h

/-- An open parenthesis that is not the last one: the one before it is found. -/
theorem State.Ok.below (hs : s.Ok) (hl : s.lpar = some l) : openCount (s.tokens.take l) + 1 = s.nParens ∧
    l < s.tokens.length ∧ Placed (s.tokens.take l).reverse ∧ Placed (s.tokens.drop (l + 1)).reverse ∧
    openCount (s.tokens.drop (l + 1)) = 0 := by
  obtain ⟨hlt, -, hcount⟩ := lparBelow_spec (hs.lpar.symm.trans hl)
  obtain ⟨-, -, -, hzero, hplaced⟩ := hs.slice
  have hstart : s.start = l + 1 := by rw [State.start, hl]
  rw [List.take_length] at hcount
  rw [hstart] at hzero hplaced
  refine ⟨by rw [hs.nParens, hcount], hlt, ?_, hplaced, hzero⟩
  have hall := hs.placed
  rw [← List.take_append_drop l s.tokens, List.reverse_append] at hall
  exact hall.drop

theorem closeParen_yields (hs : s.Ok) : Yields State.Ok (fun e => e ≠ .bounds) (closeParen s) := by
  unfold closeParen
  by_cases hzero : s.nParens = 0
  · rw [if_pos hzero]
    exact Fault.noConfusion
  · rw [if_neg hzero]
    cases hl : s.lpar with
    | none =>
      have hnone := lparBelow_eq_none.mp (hs.lpar.symm.trans hl)
      rw [List.take_length, ← hs.nParens] at hnone
      exact absurd hnone hzero
    | some l =>
      obtain ⟨hcount, hlt, hplaced, hslice, hopen⟩ := hs.below hl
      refine (reduce_yields hopen hslice).bind fun v hv => ?_
      have hv' : openCount [v] = 0 := (openCount_singleton v).trans (if_neg hv.1.1)
      have hall : Placed ([v].reverse ++ (s.tokens.take l).reverse) := ⟨fun h => absurd h hv.1.2, hplaced⟩
      have hfound : lparBelow (s.tokens.take l ++ [v]) l = lparBelow s.tokens l := by
        have hlen : (s.tokens.take l).length = l := List.length_take_of_le (Nat.le_of_lt hlt)
        rw [lparBelow_append _ _ (Nat.le_of_eq hlen.symm)]
        conv_rhs => rw [← List.take_append_drop l s.tokens]
        exact (lparBelow_append _ _ (Nat.le_of_eq hlen.symm)).symm
      dsimp only
      rw [hfound]
      by_cases hlast : s.nParens - 1 = 0
      · rw [if_pos hlast]
        have hnone : lparBelow s.tokens l = none := lparBelow_eq_none.mpr (by omega)
        exact ok_append (s := { s with lpar := none, nParens := 0 }) (Nat.le_of_lt hlt) hnone
          (by show openCount (s.tokens.take l) = 0; omega) hv' hall
      · rw [if_neg hlast]
        cases houter : lparBelow s.tokens l with
        | none =>
          have hnone := lparBelow_eq_none.mp houter
          omega
        | some l' =>
          exact ok_append (s := { s with lpar := some l', nParens := s.nParens - 1 }) (Nat.le_of_lt hlt) houter
            (by show openCount (s.tokens.take l) = s.nParens - 1; omega) hv' hall

theorem binaryOp_yields (hs : s.Ok) (op : OpCode) (hop : op ≠ .lpar) :
    Yields State.Ok (fun e => e ≠ .bounds) (binaryOp s op) := by
  have hlpar : openCount [.operator op] = 0 := (openCount_singleton _).trans (if_neg hop)
  unfold binaryOp
  cases hlast : s.tokens.getLast? with
  | none => exact Fault.noConfusion
  | some last =>
    dsimp only
    by_cases hvalue : last.op.code < OpCode.opEnd.code
    · rw [if_pos hvalue]
      exact Fault.noConfusion
    · have hpush : (s.push (.operator op)).Ok := hs.push hop fun _ => ⟨last, hlast, Nat.le_of_not_lt hvalue⟩
      rw [if_neg hvalue]
      split_ifs with hroom
      · have hget : s.tokens.length - 2 < s.tokens.length := by omega
        rw [List.getElem?_eq_getElem hget]
        dsimp only
        split_ifs
        · obtain ⟨hle, hfound, hcount, hopen, hslice⟩ := hs.slice
          refine (reduce_yields hopen hslice).bind fun v ⟨hplain, hv⟩ => ?_
          have hstart : s.start < s.tokens.length := by
            unfold State.start
            cases hl : s.lpar with
            | none => exact Nat.lt_of_le_of_lt (Nat.zero_le _) hget
            | some l =>
              rw [hl] at hroom
              exact Nat.lt_of_succ_lt hroom
          have hvalue' : v.isValue := by
            refine hv last ?_ (Nat.le_of_not_lt hvalue)
            rw [List.getLast?_drop, if_neg (Nat.not_le_of_lt hstart), hlast]
          have hmore : openCount [v, .operator op] = 0 := by
            rw [← List.singleton_append, openCount_append, hlpar, openCount_singleton, if_neg hplain.1]
          refine ok_append hle hfound hcount hmore ⟨fun _ => ⟨v, _, rfl, hvalue'⟩, fun h => absurd h hplain.2, ?_⟩
          have hall := hs.placed
          rw [← List.take_append_drop s.start s.tokens, List.reverse_append] at hall
          exact hall.drop
        · exact hpush
      · exact hpush

/-- **A turn** of the loop of `parse`. -/
theorem step_yields (hs : s.Ok) (t : ExprToken) : Yields State.Ok (fun e => e ≠ .bounds) (step s t) := by
  have hpush (t : ExprToken) (ht : t.op.action = .unary ∨ t.op.action = .bad) (hlpar : t.op ≠ .lpar) : (s.push t).Ok := by
    refine hs.push hlpar fun hbinary => ?_
    unfold ExprToken.isBinary at hbinary
    rcases ht with ht | ht <;> rw [ht] at hbinary <;> simp at hbinary
  unfold step
  split
  · next hop => exact hpush t (by rw [hop]; exact Or.inr rfl) (by rw [hop]; exact OpCode.noConfusion)
  · next hop => exact hpush t (by rw [hop]; exact Or.inr rfl) (by rw [hop]; exact OpCode.noConfusion)
  · next hop => exact hpush t (by rw [hop]; exact Or.inr rfl) (by rw [hop]; exact OpCode.noConfusion)
  · exact hs.open
  · exact closeParen_yields hs
  · next hop => exact hpush t (by rw [hop]; exact Or.inl rfl) (by rw [hop]; exact OpCode.noConfusion)
  · next hop => exact hpush t (by rw [hop]; exact Or.inl rfl) (by rw [hop]; exact OpCode.noConfusion)
  · split_ifs
    · exact hpush (.operator .uPlus) (Or.inl rfl) OpCode.noConfusion
    · exact binaryOp_yields hs .plus OpCode.noConfusion
  · split_ifs
    · exact hpush (.operator .uMinus) (Or.inl rfl) OpCode.noConfusion
    · exact binaryOp_yields hs .minus OpCode.noConfusion
  · next hlpar _ _ _ _ _ => exact binaryOp_yields hs t.op hlpar

/-! ## Runs -/

variable {resolver : Option Resolver}

theorem resolve_yields (t : Lexed) : Yields (fun _ => True) (fun e => e ≠ .bounds) (resolve resolver t) := by
  unfold resolve
  split
  · trivial
  · split
    · exact Fault.noConfusion
    · trivial
  · split
    · exact Fault.noConfusion
    · split
      · exact Fault.noConfusion
      · trivial
  · trivial

/-- Every state of a run is in order. -/
theorem run_yields (tokens : List Lexed) : ∀ {s : State}, s.Ok →
    Yields State.Ok (fun e => e ≠ .bounds) (run resolver s tokens) := by
  induction tokens with
  | nil => exact fun hs => hs
  | cons t tokens ih =>
    intro s hs
    unfold run
    rw [List.foldlM_cons]
    exact ((resolve_yields t).bind fun t' _ => step_yields hs t').bind fun s' hs' => ih hs'

theorem run_append (s : State) (tokens more : List Lexed) :
    run resolver s (tokens ++ more) = (run resolver s tokens >>= fun s => run resolver s more) := List.foldlM_append

theorem run_cons (s : State) (t : Lexed) (more : List Lexed) : run resolver s (t :: more) =
    (resolve resolver t >>= fun t => step s t >>= fun s => run resolver s more) := by
  unfold run
  rw [List.foldlM_cons]
  cases resolve resolver t <;> rfl

theorem stringBody_yields (s : Text) : Yields (fun _ => True) (fun e => e ≠ .bounds) (stringBody s) := by
  fun_induction stringBody s with
  | case1 => exact Fault.noConfusion
  | case2 => trivial
  | case3 => exact Fault.noConfusion
  | case4 d s hne ih => exact ih.bind fun _ _ => trivial
  | case5 c s hquote hslash ih => exact ih.bind fun _ _ => trivial

theorem lex_yields (cp : Text) : Yields (fun _ => True) (fun e => e ≠ .bounds) (lex cp) := by
  have htoken (s : Text) : Yields (fun _ => True) (fun e => e ≠ .bounds) (lexToken s) := by
    unfold lexToken
    split
    · trivial
    · split_ifs
      · trivial
      · exact (stringBody_yields _).bind fun _ _ => trivial
      · trivial
      · split
        · exact Fault.noConfusion
        · trivial
  exact (htoken _).bind fun _ _ => trivial

theorem lexAll_yields : ∀ (fuel : Nat) (cp : Text), Yields (fun _ => True) (fun e => e ≠ .bounds) (lexAll fuel cp)
  | 0, _ => trivial
  | fuel + 1, cp => by
    unfold lexAll
    refine (lex_yields cp).bind fun r _ => ?_
    split_ifs
    · trivial
    · exact (lexAll_yields fuel r.2).bind fun _ _ => trivial

/-- **No token is used that there is not**: whatever the string and the identifiers stand for, `t[-1]`, `t[-2]` and
`t[-4]` are tokens of the expression that is evaluated, and every close parenthesis finds its open one. -/
theorem evalExpression_ne_bounds (resolver : Option Resolver) (buf : Text) :
    evalExpression resolver buf ≠ .error .bounds := by
  have htokens (tokens : List Lexed) : Yields (fun _ => True) (fun e => e ≠ .bounds) (evalTokens resolver tokens) := by
    unfold evalTokens
    refine (run_yields tokens ok_start).bind fun s hs => ?_
    -- at the end everything is evaluated, also what stands in front of an open parenthesis
    have hreduce : Yields (fun _ => True) (fun e => e ≠ .bounds) (reduce s.tokens) := by
      have hplaced := hs.placed
      unfold reduce
      generalize s.tokens.reverse = front at hplaced
      cases front with
      | nil => exact Fault.noConfusion
      | cons t front => exact (reduceLoop_yields hplaced.2).imp (fun _ _ => trivial) fun _ h => h
    exact hreduce.bind fun _ _ => trivial
  have hall : Yields (fun _ => True) (fun e => e ≠ .bounds) (evalExpression resolver buf) :=
    (lexAll_yields (buf.length + 1) buf).bind fun tokens _ => htokens tokens
  intro h
  rw [h] at hall
  exact hall rfl

/-! ## What stands in parentheses -/

/-- The tokens of a state behind those of another one. -/
def State.behind (outer s : State) : State where
  tokens := outer.tokens ++ s.tokens
  lpar := s.lpar.map (outer.tokens.length + ·)
  nParens := outer.nParens + s.nParens

theorem start_behind (outer : State) (hl : s.lpar = some l) : (outer.behind s).start = outer.tokens.length + s.start := by
  unfold State.start State.behind
  rw [hl]
  rfl

theorem reduce_behind (outer : State) (k : Nat) :
    reduce ((outer.behind s).tokens.drop (outer.tokens.length + k)) = reduce (s.tokens.drop k) :=
  congrArg reduce (List.drop_length_add_append k)

theorem take_behind (outer : State) (k : Nat) :
    (outer.behind s).tokens.take (outer.tokens.length + k) = outer.tokens ++ s.tokens.take k :=
  List.take_length_add_append k

theorem push_behind (outer s : State) (t : ExprToken) : (outer.behind s).push t = outer.behind (s.push t) :=
  congrArg (State.mk · _ _) (List.append_assoc _ _ _)

theorem open_behind (outer s : State) : openParen (outer.behind s) = outer.behind (openParen s) := by
  unfold openParen State.behind
  simp [Nat.add_assoc]

/-- What a close parenthesis does. -/
theorem closeParen_of (hn : s.nParens ≠ 0) (hl : s.lpar = some l) (hv : reduce (s.tokens.drop (l + 1)) = .ok v) :
    closeParen s =
      if s.nParens - 1 = 0 then .ok { tokens := s.tokens.take l ++ [v], lpar := none, nParens := 0 }
      else
        match lparBelow (s.tokens.take l ++ [v]) l with
        | none => .error .bounds
        | some l' => .ok { tokens := s.tokens.take l ++ [v], lpar := some l', nParens := s.nParens - 1 } := by
  unfold closeParen
  rw [if_neg hn, hl]
  dsimp only
  rw [hv]
  rfl

theorem closeParen_ok (h : closeParen s = .ok s') :
    s.nParens ≠ 0 ∧ ∃ l v, s.lpar = some l ∧ reduce (s.tokens.drop (l + 1)) = .ok v := by
  unfold closeParen at h
  by_cases hn : s.nParens = 0
  · rw [if_pos hn] at h
    cases h
  · rw [if_neg hn] at h
    cases hl : s.lpar with
    | none =>
      rw [hl] at h
      cases h
    | some l =>
      rw [hl] at h
      cases hv : reduce (s.tokens.drop (l + 1)) with
      | error e =>
        dsimp only at h
        rw [hv] at h
        cases h
      | ok v => exact ⟨hn, l, v, rfl, hv⟩

/-- A close parenthesis that is not the last one. -/
theorem close_behind (outer : State) (h : closeParen s = .ok s') (hl : s'.lpar.isSome = true) :
    closeParen (outer.behind s) = .ok (outer.behind s') := by
  obtain ⟨hn, l, v, hlpar, hv⟩ := closeParen_ok h
  have hn' : (outer.behind s).nParens ≠ 0 := fun h => hn (Nat.eq_zero_of_add_eq_zero_left h)
  have hlpar' : (outer.behind s).lpar = some (outer.tokens.length + l) := by
    unfold State.behind
    rw [hlpar]
    rfl
  rw [closeParen_of hn hlpar hv] at h
  by_cases hlast : s.nParens - 1 = 0
  · rw [if_pos hlast] at h
    cases h
    cases hl
  · rw [if_neg hlast] at h
    cases hfound : lparBelow (s.tokens.take l ++ [v]) l with
    | none =>
      rw [hfound] at h
      cases h
    | some l' =>
      rw [hfound] at h
      cases h
      have hfound' := lparBelow_behind outer.tokens _ hfound
      have hlast' : (outer.behind s).nParens - 1 ≠ 0 := fun h => hlast (by
        show s.nParens - 1 = 0
        have hsum : (outer.behind s).nParens = outer.nParens + s.nParens := rfl
        omega)
      rw [← List.append_assoc] at hfound'
      rw [closeParen_of hn' hlpar' ((reduce_behind outer (l + 1)).trans hv), if_neg hlast', take_behind, hfound']
      refine congrArg Except.ok (congrArg₂ (State.mk · (some _) ·) (List.append_assoc _ _ _) ?_)
      exact Nat.add_sub_assoc (Nat.pos_of_ne_zero hn) _

theorem getLast?_behind (outer : State) {last : ExprToken} (h : s.tokens.getLast? = some last) :
    (outer.behind s).tokens.getLast? = some last := by
  show (outer.tokens ++ s.tokens).getLast? = _
  rw [List.getLast?_append, h]
  rfl

/-- An operator behind a value in parentheses. -/
theorem binaryOp_behind (outer : State) {op : OpCode} (h : binaryOp s op = .ok s') (hl : s.lpar = some l) :
    binaryOp (outer.behind s) op = .ok (outer.behind s') := by
  have hlength : (outer.behind s).tokens.length = outer.tokens.length + s.tokens.length := List.length_append
  have hlpar : (outer.behind s).lpar = some (outer.tokens.length + l) := by
    unfold State.behind
    rw [hl]
    rfl
  have hpush := push_behind outer s (.operator op)
  unfold binaryOp at h ⊢
  cases hlast : s.tokens.getLast? with
  | none =>
    rw [hlast] at h
    cases h
  | some last =>
    rw [hlast] at h
    rw [getLast?_behind outer hlast, hlpar, hlength]
    rw [hl] at h
    dsimp only [Option.getD_some] at h ⊢
    by_cases hvalue : last.op.code < OpCode.opEnd.code
    · rw [if_pos hvalue] at h
      cases h
    · rw [if_neg hvalue] at h ⊢
      by_cases hroom : l + 2 < s.tokens.length
      · have hget : (outer.behind s).tokens[outer.tokens.length + s.tokens.length - 2]? =
            s.tokens[s.tokens.length - 2]? := by
          show (outer.tokens ++ s.tokens)[_]? = _
          rw [Nat.add_sub_assoc (by omega), List.getElem?_append_right (Nat.le_add_right _ _), Nat.add_sub_cancel_left]
        rw [if_pos hroom] at h
        rw [if_pos (by omega), hget]
        cases hbefore : s.tokens[s.tokens.length - 2]? with
        | none =>
          rw [hbefore] at h
          cases h
        | some before =>
          rw [hbefore] at h
          dsimp only at h ⊢
          split_ifs at h ⊢ with hlower
          · rw [start_behind outer hl, reduce_behind, take_behind]
            cases hv : reduce (s.tokens.drop s.start) with
            | error e =>
              rw [hv] at h
              cases h
            | ok v =>
              rw [hv] at h
              cases h
              exact congrArg Except.ok (congrArg (State.mk · _ _) (List.append_assoc _ _ _))
          · cases h
            exact congrArg Except.ok hpush
      · rw [if_neg hroom] at h
        rw [if_neg (by omega)]
        cases h
        exact congrArg Except.ok hpush

/-- A turn in parentheses does the same behind any tokens. -/
theorem step_behind (outer : State) (hne : s.tokens ≠ []) (hl : s.lpar.isSome = true) (h : step s t = .ok s')
    (hl' : s'.lpar.isSome = true) : step (outer.behind s) t = .ok (outer.behind s') := by
  obtain ⟨l, hlpar⟩ := Option.isSome_iff_exists.mp hl
  have hunary : (outer.behind s).isUnary = s.isUnary := by
    unfold State.isUnary
    cases hlast : s.tokens.getLast? with
    | none => exact absurd (List.getLast?_eq_none_iff.mp hlast) hne
    | some last => rw [getLast?_behind outer hlast]
  have hpush (t : ExprToken) (h : (.ok (s.push t) : Except Fault State) = .ok s') :
      (.ok ((outer.behind s).push t) : Except Fault State) = .ok (outer.behind s') := by
    rw [push_behind]
    exact congrArg Except.ok (congrArg outer.behind (Except.ok.inj h))
  unfold step at h ⊢
  split at h
  · exact hpush t h
  · exact hpush t h
  · exact hpush t h
  · rw [open_behind]
    exact congrArg Except.ok (congrArg outer.behind (Except.ok.inj h))
  · exact close_behind outer h hl'
  · exact hpush t h
  · exact hpush t h
  · rw [hunary]
    split_ifs at h ⊢
    · exact hpush _ h
    · exact binaryOp_behind outer h hlpar
  · rw [hunary]
    split_ifs at h ⊢
    · exact hpush _ h
    · exact binaryOp_behind outer h hlpar
  · exact binaryOp_behind outer h hlpar

/-- The parentheses of some tokens are closed in them, with some open before. -/
def balanced : Nat → List Lexed → Bool
  | n, [] => n == 0
  | n, t :: tokens =>
    if t.op = .lpar then balanced (n + 1) tokens
    else if t.op = .rpar then n ≠ 0 && balanced (n - 1) tokens
    else balanced n tokens

/-- Only parentheses are parentheses. -/
theorem resolve_paren {x : Lexed} (h : resolve resolver x = .ok t) :
    (t.op = .lpar ↔ x.op = .lpar) ∧ (t.op = .rpar ↔ x.op = .rpar) := by
  unfold resolve at h
  split at h
  · next hop =>
    cases h
    simp [hop, ExprToken.op]
  · next hop =>
    split at h
    · cases h
    · cases h
      simp [hop, ExprToken.op]
  · next hop =>
    split at h
    · cases h
    · split at h
      · cases h
      · next v _ =>
        cases h
        cases v <;> simp [hop, ExprValue.token, ExprToken.op]
  · cases h
    exact ⟨Iff.rfl, Iff.rfl⟩

/-- The count of parentheses after a turn. -/
theorem step_nParens (h : step s t = .ok s') : s'.nParens =
    if t.op = .lpar then s.nParens + 1 else if t.op = .rpar then s.nParens - 1 else s.nParens := by
  have hbinary {op : OpCode} (h : binaryOp s op = .ok s') : s'.nParens = s.nParens := by
    unfold binaryOp at h
    split at h
    · cases h
    · split_ifs at h
      · split at h
        · cases h
        · split_ifs at h
          · cases hv : reduce (s.tokens.drop s.start) with
            | error e =>
              rw [hv] at h
              cases h
            | ok v =>
              rw [hv] at h
              cases h
              rfl
          · cases h
            rfl
      · cases h
        rfl
  have hpush (t : ExprToken) (h : (.ok (s.push t) : Except Fault State) = .ok s') : s'.nParens = s.nParens := by
    cases h
    rfl
  unfold step at h
  split at h
  · next hop => simp [hpush t h, hop]
  · next hop => simp [hpush t h, hop]
  · next hop => simp [hpush t h, hop]
  · next hop =>
    cases h
    simp [hop, openParen]
  · next hop =>
    obtain ⟨hn, l, v, hl, hv⟩ := closeParen_ok h
    rw [closeParen_of hn hl hv] at h
    simp only [hop, reduceCtorEq, if_false, if_true]
    split_ifs at h with hlast
    · cases h
      exact hlast.symm
    · split at h
      · cases h
      · cases h
        rfl
  · next hop => simp [hpush t h, hop]
  · next hop => simp [hpush t h, hop]
  · next hop =>
    split_ifs at h
    · simp [hpush _ h, hop]
    · simp [hbinary h, hop]
  · next hop =>
    split_ifs at h
    · simp [hpush _ h, hop]
    · simp [hbinary h, hop]
  · next hlpar hrpar _ _ _ _ => rw [if_neg hlpar, if_neg hrpar, hbinary h]

theorem State.Ok.isSome (hs : s.Ok) (hn : s.nParens ≠ 0) : s.lpar.isSome = true ∧ s.tokens ≠ [] := by
  have hcount : openCount s.tokens ≠ 0 := fun h => hn (hs.nParens.trans h)
  constructor
  · rw [Option.isSome_iff_ne_none, hs.lpar, Ne, lparBelow_eq_none, List.take_length]
    exact hcount
  · rintro hnil
    rw [hnil] at hcount
    exact hcount rfl

/-- What stands in open parentheses is evaluated alone. -/
theorem run_behind (outer : State) : ∀ (tokens : List Lexed) (n : Nat) {s : State}, s.Ok → s.nParens = n + 1 →
    balanced n tokens = true → run resolver s tokens = .ok s' →
    run resolver (outer.behind s) tokens = .ok (outer.behind s') ∧ s'.Ok ∧ s'.nParens = 1
  | [], n, s, hs, hn, hbalanced, h => by
    cases h
    exact ⟨rfl, hs, by rw [hn, eq_of_beq hbalanced]⟩
  | x :: tokens, n, s, hs, hn, hbalanced, h => by
    rw [run_cons] at h ⊢
    cases ht : resolve resolver x with
    | error e =>
      rw [ht] at h
      cases h
    | ok t =>
      rw [ht] at h
      cases hstep : step s t with
      | error e =>
        have hfail : (step s t >>= fun s => run resolver s tokens) = .ok s' := h
        rw [hstep] at hfail
        cases hfail
      | ok s₁ =>
        have hrun : (step s t >>= fun s => run resolver s tokens) = .ok s' := h
        rw [hstep] at hrun
        have hok : s₁.Ok := by
          have hyields := step_yields hs t
          rw [hstep] at hyields
          exact hyields
        obtain ⟨hlpar, hrpar⟩ := resolve_paren ht
        have hcount := step_nParens hstep
        simp only [hlpar, hrpar] at hcount
        obtain ⟨m, hm, hbalanced'⟩ : ∃ m, s₁.nParens = m + 1 ∧ balanced m tokens = true := by
          rw [balanced] at hbalanced
          split_ifs at hbalanced hcount
          · exact ⟨n + 1, by rw [hcount, hn], hbalanced⟩
          · rw [Bool.and_eq_true, decide_eq_true_eq] at hbalanced
            exact ⟨n - 1, by omega, hbalanced.2⟩
          · exact ⟨n, by rw [hcount, hn], hbalanced⟩
        obtain ⟨hsome, hne⟩ := hs.isSome (by omega)
        obtain ⟨hsome', -⟩ := hok.isSome (by omega)
        have hbehind := step_behind outer hne hsome hstep hsome'
        obtain ⟨hrest, hs'⟩ := run_behind outer tokens m hok hm hbalanced' hrun
        refine ⟨?_, hs'⟩
        show (step (outer.behind s) t >>= fun s => run resolver s tokens) = _
        rw [hbehind]
        exact hrest

/-- What stands in parentheses alone is replaced by a value. In `(~)` it is not: the operator is left,
though `evalExpression` then takes it for an empty string. -/
def Evaluates (resolver : Option Resolver) (tokens : List Lexed) (v : ExprValue) : Prop :=
  run resolver {} (inParens tokens) = .ok { tokens := [v.token] }

theorem run_inParens (s : State) (tokens : List Lexed) : run resolver s (inParens tokens) =
    (run resolver (openParen s) tokens >>= closeParen) := by
  unfold inParens
  rw [run_append, run_cons]
  refine congrArg (run resolver (openParen s) tokens >>= ·) (funext fun s' => ?_)
  rw [run_cons]
  show (closeParen s' >>= fun s => run resolver s []) = closeParen s'
  cases closeParen s' <;> rfl

theorem open_eq_behind (s : State) : openParen s = s.behind (openParen {}) := rfl

/-- The value of what stands behind the last open parenthesis replaces it. -/
theorem closeParen_to (hs : s.Ok) (hn : s'.nParens = s.nParens + 1) (hl : s'.lpar = some s.tokens.length)
    (htokens : s'.tokens.take s.tokens.length = s.tokens)
    (hv : reduce (s'.tokens.drop (s.tokens.length + 1)) = .ok v) : closeParen s' = .ok (s.push v) := by
  rw [closeParen_of (by omega) hl hv, hn, Nat.add_sub_cancel, htokens, lparBelow_append _ _ (Nat.le_refl _), ← hs.lpar]
  by_cases hzero : s.nParens = 0
  · have hnone : s.lpar = none := by
      rw [hs.lpar, lparBelow_eq_none, List.take_length, ← hs.nParens, hzero]
    rw [if_pos hzero, State.push, hnone, hzero]
  · obtain ⟨l, hl⟩ := Option.isSome_iff_exists.mp (hs.isSome hzero).1
    rw [if_neg hzero, State.push, hl]

theorem run_paren (hs : s.Ok) {tokens : List Lexed} {v : ExprValue} (hbalanced : balanced 0 tokens = true)
    (h : Evaluates resolver tokens v) : run resolver s (inParens tokens) = .ok (s.push v.token) := by
  unfold Evaluates at h
  rw [run_inParens] at h ⊢
  cases hrun : run resolver (openParen {}) tokens with
  | error e =>
    rw [hrun] at h
    cases h
  | ok s₁ =>
    rw [hrun] at h
    have hclose : closeParen s₁ = .ok { tokens := [v.token] } := h
    obtain ⟨hbehind, hok, hone⟩ := run_behind s tokens 0 ok_start.open rfl hbalanced hrun
    obtain ⟨hn, l, v', hl, hv⟩ := closeParen_ok hclose
    rw [closeParen_of hn hl hv, if_pos (by omega)] at hclose
    have htake : s₁.tokens.take l ++ [v'] = [v.token] := congrArg State.tokens (Except.ok.inj hclose)
    obtain ⟨hnil, rfl⟩ := List.append_singleton_inj.mp (htake.trans (List.nil_append _).symm)
    obtain rfl : l = 0 := by
      rcases List.take_eq_nil_iff.mp hnil with hzero | hnone
      · exact hzero
      · exact absurd hnone (hok.isSome hn).2
    rw [open_eq_behind, hbehind]
    refine closeParen_to hs ?_ (congrArg (Option.map (s.tokens.length + ·)) hl) ?_ ((reduce_behind s (0 + 1)).trans hv)
    · show s.nParens + s₁.nParens = s.nParens + 1
      rw [hone]
    · have htake := take_behind (s := s₁) s 0
      rwa [hnil, List.append_nil] at htake

/-- In any context, tokens in parentheses that are replaced by a value are as good as a token with that value. -/
theorem evalTokens_paren {tokens : List Lexed} {v : ExprValue} {x : Lexed} (hbalanced : balanced 0 tokens = true)
    (h : Evaluates resolver tokens v) (hx : resolve resolver x = .ok v.token) (front back : List Lexed) :
    evalTokens resolver (front ++ inParens tokens ++ back) = evalTokens resolver (front ++ x :: back) := by
  have hrun : run resolver {} (front ++ inParens tokens ++ back) = run resolver {} (front ++ x :: back) := by
    rw [List.append_assoc, run_append, run_append]
    have hfront : Yields State.Ok (fun e => e ≠ .bounds) (run resolver {} front) := run_yields front ok_start
    cases hs : run resolver {} front with
    | error e => rfl
    | ok s =>
      rw [hs] at hfront
      show run resolver s (inParens tokens ++ back) = run resolver s (x :: back)
      rw [run_append, run_paren hfront hbalanced h, run_cons, hx]
      have hstep : step s v.token = .ok (s.push v.token) := by
        cases v <;> rfl
      show run resolver (s.push v.token) back = (step s v.token >>= fun s => run resolver s back)
      rw [hstep]
      rfl
  unfold evalTokens
  rw [hrun]

/-- **Parentheses are compositional**: wherever `(e)` stands in an expression, with `e` closing its own parentheses,
and alone is replaced by a value, an identifier with that value can stand. The results are the same, errors
included. -/
theorem evalExpression_paren (resolver : Option Resolver) (e front back : List Lexed) (x : Lexed) (v : ExprValue)
    (buf buf' : Text) (hbuf : tokensOf buf = .ok (front ++ inParens e ++ back))
    (hbuf' : tokensOf buf' = .ok (front ++ x :: back)) (hbalanced : balanced 0 e = true) (h : Evaluates resolver e v)
    (hx : resolve resolver x = .ok v.token) : evalExpression resolver buf = evalExpression resolver buf' := by
  unfold evalExpression
  rw [hbuf, hbuf']
  exact evalTokens_paren hbalanced h hx front back

/-- `2*(1+2)` and `2*x` with 3 for `x`. -/
theorem evalExpression_paren_sum :
    evalExpression (some fun _ => .ok (.number 3)) [50, 42, 40, 49, 43, 50, 41] =
      evalExpression (some fun _ => .ok (.number 3)) [50, 42, 120] := by
  have hrun : Evaluates (some fun _ => .ok (.number 3))
      [{ op := .number, text := [49], number := some 1 }, { op := .plus }, { op := .number, text := [50], number := some 2 }]
      (.number 3) := rfl
  exact evalExpression_paren _ _ [{ op := .number, text := [50], number := some 2 }, { op := .mult }] []
    { op := .ident, text := [120] } _ _ _ rfl rfl rfl hrun rfl

end OpenCpi.Expr
