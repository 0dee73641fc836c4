import OpenCpi.Value.Marshal

/-!
# The size of a type

What `offset` is meant to compute, over numbers without a bound: the alignment of a member, the size of
one element, of all elements of its array and of a sequence of such arrays. And what the layout means
for `read` and `write`: where the data of a member of fixed size lies.
-/

namespace OpenCpi.Value

open Infra

/-- The bytes of an item: an array pads its elements to their alignment. -/
def Decl.itemSize (d : Decl) (align size : Nat) : Nat :=
  if d.arrayDimensions = [] then size else roundUp size align * d.arrayDimensions.prod

/-- The items a sequence has room for; an unbounded one has room for one. -/
def Decl.room (d : Decl) : Nat := if d.sequenceLength = 0 then 1 else d.sequenceLength

/-- The alignment of a member whose elements have a given one. -/
def Decl.alignment (d : Decl) (align : Nat) : Nat :=
  if d.isSequence then max align 4 else align

/-- The bytes of a member whose elements have a given alignment and size. A sequence is `counted` unless
it is alone at the top. -/
def Decl.size (d : Decl) (counted : Bool) (align size : Nat) : Nat :=
  if d.isSequence then
    roundUp (d.itemSize align size) align * d.room + if counted then d.alignment align else 0
  else d.itemSize align size

mutual

/-- The alignment of the elements of a member. -/
def Member.elementAlign : Member → Nat
  | .scalar _ t => (t.bits + 7) / 8
  | .string _ _ => (stringBits + 7) / 8
  | .enum _ _ => (enumBits + 7) / 8
  | .struct _ ms => membersAlign 1 ms
  | .type _ t => max 1 (t.decl.alignment t.elementAlign)

/-- The largest alignment of some members. -/
def membersAlign (align : Nat) : List Member → Nat
  | [] => align
  | m :: ms => membersAlign (max align (m.decl.alignment m.elementAlign)) ms

end

/-- The alignment of a member. -/
def Member.alignment (m : Member) : Nat := m.decl.alignment m.elementAlign

mutual

/-- The bytes of one element of a member. -/
def Member.elementSize : Member → Nat
  | .scalar _ t => (t.bits + 7) / 8
  | .string _ stringLength => (stringLength + 4) / 4 * 4
  | .enum _ _ => (enumBits + 7) / 8
  | .struct _ ms => membersEnd 0 ms
  | .type _ t => t.decl.size true t.elementAlign t.elementSize

/-- Where members end that are laid out from a given offset on. -/
def membersEnd (start : Nat) : List Member → Nat
  | [] => start
  | m :: ms =>
    membersEnd (roundUp start m.alignment + m.decl.size true m.elementAlign m.elementSize) ms

end

/-- The bytes of a member. -/
def Member.size (counted : Bool) (m : Member) : Nat :=
  m.decl.size counted m.elementAlign m.elementSize

mutual

/-- The sizes of a member and of all members in it. -/
def Member.sizes (counted : Bool) : Member → List Nat
  | .struct d ms => Member.size counted (.struct d ms) :: membersSizes ms
  | .type d t => Member.size counted (.type d t) :: t.sizes true
  | m => [m.size counted]

def membersSizes : List Member → List Nat
  | [] => []
  | m :: ms => m.sizes true ++ membersSizes ms

end

/-- The sizes for an argument list. Only the first argument can lie at offset 0. -/
def argumentSizes (isTop : Bool) (argOffset : Nat) : List Member → List Nat
  | [] => []
  | m :: ms =>
    let counted := !isTop || argOffset ≠ 0
    m.sizes counted ++ argumentSizes isTop (roundUp argOffset m.alignment + m.size counted) ms

mutual

/-- `m_nBytes` of a member and of all members in it. -/
def Member.nBytesList : Member → List Nat
  | .struct d ms => d.nBytes :: membersBytes ms
  | .type d t => d.nBytes :: t.nBytesList
  | .scalar d _ | .string d _ | .enum d _ => [d.nBytes]

def membersBytes : List Member → List Nat
  | [] => []
  | m :: ms => m.nBytesList ++ membersBytes ms

end

/-- The members lie in aligned places one behind the other. -/
structure InOrder (ms : List Member) : Prop where
  aligned : ∀ m ∈ ms, m.decl.align ∣ m.decl.offset
  ordered : ms.Pairwise fun a b => a.decl.offset + a.decl.nBytes ≤ b.decl.offset

mutual

/-- So do the members of each struct in it. -/
def Member.Ordered : Member → Prop
  | .struct _ ms => InOrder ms ∧ membersOrdered ms
  | .type _ t => t.Ordered
  | _ => True

def membersOrdered : List Member → Prop
  | [] => True
  | m :: ms => m.Ordered ∧ membersOrdered ms

end

/-- The numbers that the parser admits: no dimension is zero, and all fit into 64 bits. -/
structure Decl.Parsed (d : Decl) : Prop where
  dimensions : ∀ n ∈ d.arrayDimensions, 0 < n ∧ n < 2 ^ 64
  sequenceLength : d.sequenceLength < 2 ^ 64

mutual

/-- A member as the parser admits it. -/
def Member.Parsed : Member → Prop
  | .scalar d _ | .enum d _ => d.Parsed
  | .string d stringLength => d.Parsed ∧ stringLength < 2 ^ 64
  | .struct d ms => d.Parsed ∧ ms ≠ [] ∧ membersParsed ms
  | .type d t => d.Parsed ∧ t.isSequence = true ∧ t.Parsed

def membersParsed : List Member → Prop
  | [] => True
  | m :: ms => m.Parsed ∧ membersParsed ms

end

/-- No product of the layout exceeds 64 bits. -/
structure Decl.NoWrap (d : Decl) (align size : Nat) : Prop where
  array : d.arrayDimensions ≠ [] → roundUp size align * d.arrayDimensions.prod < 2 ^ 64
  sequence : d.isSequence →
    roundUp (d.itemSize align size) align * d.room + d.alignment align < 2 ^ 64

mutual

/-- The condition: nothing in the layout of the member exceeds 64 bits, neither an array nor a sequence
of the largest length nor a string with its end. -/
def Member.NoWrap : Member → Prop
  | .string d stringLength => stringLength + 4 < 2 ^ 64 ∧
      d.NoWrap (Member.elementAlign (.string d stringLength)) (Member.elementSize (.string d stringLength))
  | .struct d ms => membersNoWrap ms ∧
      d.NoWrap (Member.elementAlign (.struct d ms)) (Member.elementSize (.struct d ms))
  | .type d t => t.NoWrap ∧ d.NoWrap (Member.elementAlign (.type d t)) (Member.elementSize (.type d t))
  | .scalar d t => d.NoWrap (Member.elementAlign (.scalar d t)) (Member.elementSize (.scalar d t))
  | .enum d t => d.NoWrap (Member.elementAlign (.enum d t)) (Member.elementSize (.enum d t))

def membersNoWrap : List Member → Prop
  | [] => True
  | m :: ms => m.NoWrap ∧ membersNoWrap ms

end

/-! ## Where the layout puts data -/

/-- The calls for a member with those for its elements inside. -/
def Decl.around (d : Decl) (events : List Event) : List Event :=
  if d.arrayDimensions = [] then events
  else .beginArray d d.arrayDimensions.prod :: events ++ [.endArray d]

mutual

/-- The data of a member of fixed size at an address, by the layout: elements at multiples of the size
rounded up to the alignment, members at their offsets. -/
def Member.accesses (memory : Memory) (base : Nat) : Member → List Event
  | .scalar d _ | .enum d _ =>
    d.around [.data d (readBytes memory base (d.arrayDimensions.prod * (d.nBits / 8)))
      d.arrayDimensions.prod]
  | .struct d ms =>
    d.around (.beginStruct d ::
      (List.range d.arrayDimensions.prod).flatMap (fun i =>
        membersAccesses memory (base + i * roundUp (d.nBits / 8) d.dataAlign) ms) ++ [.endStruct d])
  | .string _ _ | .type _ _ => []

def membersAccesses (memory : Memory) (base : Nat) : List Member → List Event
  | [] => []
  | m :: ms => m.accesses memory (base + m.decl.offset) ++ membersAccesses memory base ms

end

/-- `write` and `read` at an aligned base find and put the data where the layout says, and take the
bytes of the member. -/
structure Agrees (m : Member) : Prop where
  write (memory : Memory) (base length : Nat) : 16 ∣ base → m.decl.nBytes ≤ length →
    m.write memory false ⟨base, length, []⟩ =
      .ok ((), ⟨base + m.decl.nBytes, length - m.decl.nBytes, m.accesses memory base⟩)
  read {σ : Type} (R : Reader σ) (source : σ) (memory : Memory) (base length : Nat) :
    16 ∣ base → m.decl.nBytes ≤ length →
    ∃ s, m.read R ⟨memory, base, length, source, []⟩ = .ok ((), s) ∧
      s.data = base + m.decl.nBytes ∧ s.length = length - m.decl.nBytes ∧
      s.events = m.accesses s.memory base

/-- The same for an argument list that takes some bytes. -/
structure ListAgrees (nBytes : Nat) (ms : List Member) : Prop where
  write (memory : Memory) (top : Bool) (base length : Nat) : 16 ∣ base → nBytes ≤ length →
    writeMembers memory top ms ⟨base, length, []⟩ =
      .ok ((), ⟨base + nBytes, length - nBytes, membersAccesses memory base ms⟩)
  read {σ : Type} (R : Reader σ) (source : σ) (memory : Memory) (base length : Nat) :
    16 ∣ base → nBytes ≤ length →
    ∃ s, readMembers R ms ⟨memory, base, length, source, []⟩ = .ok ((), s) ∧
      s.data = base + nBytes ∧ s.length = length - nBytes ∧
      s.events = membersAccesses s.memory base ms

mutual

/-- A property of a member and of all members in it. -/
def Member.All (P : Member → Prop) : Member → Prop
  | .struct d ms => P (.struct d ms) ∧ membersAll P ms
  | .type d t => P (.type d t) ∧ t.All P
  | m => P m

def membersAll (P : Member → Prop) : List Member → Prop
  | [] => True
  | m :: ms => m.All P ∧ membersAll P ms

end

mutual

/-- The condition: where structs form an array, there is no padding behind the last member. -/
def Member.NoTail : Member → Prop
  | .struct d ms =>
    (d.arrayDimensions ≠ [] →
      Member.elementAlign (.struct d ms) ∣ Member.elementSize (.struct d ms)) ∧ membersNoTail ms
  | .type _ t => t.NoTail
  | _ => True

def membersNoTail : List Member → Prop
  | [] => True
  | m :: ms => m.NoTail ∧ membersNoTail ms

end

end OpenCpi.Value
