import Mathlib.Data.List.Basic

/-!
# The FIFO of depth two

`FIFO2X.v`. `emptyReg` is false when the FIFO is empty and `fullReg` is false when it holds two
words, as in the source, where the registers are named after the flags with a negative sense.
`FULL_N` looks ahead: it tells whether the FIFO will be full in the next cycle.
-/

namespace OpenCpi.Wsi

variable {α : Type}

structure Fifo2x (α : Type) where
  emptyReg : Bool
  fullReg : Bool
  data0 : α
  data1 : α

namespace Fifo2x

variable (f : Fifo2x α) (enq deq : Bool)

/-- `EMPTY_N` -/
def emptyN : Bool := f.emptyReg

/-- `FULL_N` -/
def fullN : Bool := !((f.emptyReg && enq && !deq) || (!f.fullReg && !deq))

/-- `D_OUT` -/
def dOut : α := f.data0

def d0di : Bool := (enq && !f.emptyReg) || (enq && deq && f.fullReg)

def d0d1 : Bool := deq && !f.fullReg

def d1di : Bool := enq && f.emptyReg

/-- A clock edge without `RST` and `CLR`. The source joins what the three load signals of `data0_reg`
select by "or"; exactly one of them is set while the FIFO is not empty and full at once, `d0h` where
the other two are not. -/
def step (dIn : α) : Fifo2x α where
  emptyReg := if enq && !deq then true else if deq && !enq then !f.fullReg else f.emptyReg
  fullReg := if enq && !deq then !f.emptyReg else if deq && !enq then true else f.fullReg
  data0 := if f.d0di enq deq then dIn else if f.d0d1 deq then f.data1 else f.data0
  data1 := if f.d1di enq then dIn else f.data1

/-- After `RST`; the data registers are not reset. -/
def reset : Fifo2x α := { f with emptyReg := false, fullReg := true }

/-! ## What it holds -/

/-- The FIFO does not say that it is empty and full. -/
def Valid : Prop := f.emptyReg = false → f.fullReg = true

def contents : List α :=
  if f.emptyReg then if f.fullReg then [f.data0] else [f.data0, f.data1] else []

/-- It is enqueued only with room, counting the word that is dequeued, and dequeued only with a
word. -/
structure Proper : Prop where
  enq : enq = true → f.fullReg = false → deq = true
  deq : deq = true → f.emptyReg = true

variable {f enq deq}

theorem step_valid {dIn : α} (h : f.Valid) : (f.step enq deq dIn).Valid := by
  obtain ⟨e, b, d, d'⟩ := f
  unfold Valid at h ⊢
  cases e <;> cases b <;> cases enq <;> cases deq <;> simp_all [step]

/-- **It is a queue.** -/
theorem contents_step (dIn : α) (h : f.Valid) (hp : f.Proper enq deq) :
    f.contents ++ (if enq then [dIn] else []) =
      (if deq then [f.dOut] else []) ++ (f.step enq deq dIn).contents := by
  obtain ⟨e, b, d, d'⟩ := f
  obtain ⟨henq, hdeq⟩ := hp
  unfold Valid at h
  cases e <;> cases b <;> cases enq <;> cases deq <;>
    simp_all [step, contents, dOut, d0di, d0d1, d1di]

/-- **The look-ahead is right**, when nothing is enqueued into a full FIFO. -/
theorem fullReg_step {dIn : α} (h : f.fullN enq deq = true) (hv : f.Valid) (hd : f.Proper enq deq)
    (he : enq = true → f.fullReg = true) : (f.step enq deq dIn).fullReg = true := by
  obtain ⟨e, b, d, d'⟩ := f
  obtain ⟨henq, hdeq⟩ := hd
  unfold Valid at hv
  cases e <;> cases b <;> cases enq <;> cases deq <;> simp_all [step, fullN]

end Fifo2x

end OpenCpi.Wsi
