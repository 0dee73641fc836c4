import Mathlib.Data.List.Basic

/-!
# Byte enables of a connection

The part of `adjustConnection` in `hdl-assembly.cxx` that fits the byte enables of a WSI connection together, and
`InstancePort::connectOcpSignal`, which writes the binding of a port's signal. A binding is kept as its parts, so
that it has a text and a meaning.
-/

namespace OpenCpi.Hdl

inductive Language where
  | verilog
  | vhdl
  deriving DecidableEq, Repr

/-- `OcpSignal` of a port that has the signal. -/
structure OcpSignal where
  width : Nat
  width_pos : 0 < width

/-- `OcpAdapt`; the text of `expr`, `none` when it is not set. -/
structure OcpAdapt where
  expr : Option String
  comment : Option String
  deriving DecidableEq, Repr

def OcpAdapt.empty : OcpAdapt := ⟨none, none⟩

/-! ## Expressions over the bits of a signal -/

/-- `{a|b,c|d}`: for each bit, from the highest one on, the bits of the other signal that are or-ed. -/
abbrev Concatenation := List (List Nat)

/-- A loop of `nper` turns over `--pw`. -/
def countDown (pw : Nat) : Nat → List Nat
  | 0 => []
  | nper + 1 => (pw - 1) :: countDown (pw - 1) nper

/-- The loops for a consumer with fewer bits: each of its `n` bits is an or of `nper` bits. -/
def orGroups (nper : Nat) : Nat → Nat → Concatenation
  | 0, _ => []
  | n + 1, pw => countDown pw nper :: orGroups nper n (pw - nper)

/-- The loops for a consumer with more bits. -/
def replicated (pw : Nat) : Concatenation := (countDown pw pw).map ([·])

/-- What the byte enable part of `adjustConnection` leaves: the local variable `expr`, and the records of both
ports. -/
structure Adjusted where
  expr : Concatenation
  consumer : OcpAdapt
  producer : OcpAdapt

/-- The byte enable part of `adjustConnection`. In the first two cases `oa` is set to the consumer's record, and
nothing is stored in it. -/
def adjustByteEnables (lang : Language) (prod cons : Option OcpSignal) : Except String Adjusted :=
  match cons, prod with
  | some cons, some prod =>
    if cons.width < prod.width then
      if prod.width % cons.width ≠ 0 then .error "byte enable producer width not a multiple of consumer width"
      else .ok ⟨orGroups (prod.width / cons.width) cons.width prod.width, .empty, .empty⟩
    else if cons.width > prod.width then
      if cons.width % prod.width ≠ 0 then .error "byte enable consumer width not a multiple of producer width"
      else .ok ⟨replicated cons.width, .empty, .empty⟩
    else .ok ⟨[], .empty, .empty⟩
  | some cons, none =>
    let ones := match lang with
      | .vhdl => "(others => '1')"
      | .verilog => "\x7b" ++ toString cons.width ++ "\x7b1'b1\x7d\x7d"
    .ok ⟨[], ⟨some ones, none⟩, .empty⟩
  | none, some _ =>
    let unused := match lang with
      | .vhdl => "open"
      | .verilog => ""
    .ok ⟨[], .empty, ⟨some unused, some "consumer does not have byte enables"⟩⟩
  | none, none => .ok ⟨[], .empty, .empty⟩

/-! ## The binding -/

/-- `m_masterName`: a format with a place for an index, or none. -/
structure NameFormat where
  front : String
  back : Option String
  deriving DecidableEq, Repr

def NameFormat.raw (n : NameFormat) : String := n.front ++ n.back.elim "" ("%s" ++ ·)

def NameFormat.fill (n : NameFormat) (index : String) : String := n.front ++ n.back.elim "" (index ++ ·)

/-- The other end of a connection: its signal name, how many ports the connection and the other end have, and
where the connection begins there. -/
structure OtherEnd where
  masterName : NameFormat
  count : Nat
  portCount : Nat
  index : Nat

/-- The signal that a port's signals are taken from; `none` for a range of signals in Verilog, which is
asserted not to be. -/
def OtherEnd.temp (o : OtherEnd) (lang : Language) : Option String :=
  let count := if o.portCount > o.count then o.count else 0
  let name :=
    if count > 1 then
      match lang with
      | .vhdl => some (o.masterName.raw ++ "(" ++ toString o.index ++ " to " ++ toString (o.index + count - 1) ++ ")")
      | .verilog => none
    else if count = 1 then
      match lang with
      | .vhdl => some (o.masterName.raw ++ "(" ++ toString o.index ++ ")")
      | .verilog => some (o.masterName.fill (toString o.index))
    else some (o.masterName.fill "")
  name.map fun temp => match lang with
    | .vhdl => temp ++ "."
    | .verilog => temp

/-- A binding of `MByteEn`. -/
inductive Binding where
  /-- The text of `oa.expr`. -/
  | adapted (text : String)
  /-- The signal of the other end. -/
  | whole (signal : String)
  /-- Its lowest bits. -/
  | low (signal : String) (width : Nat)
  deriving DecidableEq, Repr

def Binding.text (lang : Language) : Binding → String
  | .adapted text => text
  | .whole signal => signal
  | .low signal width => signal ++ match lang with
    | .verilog => "[" ++ toString (width - 1) ++ ":0]"
    | .vhdl => "(" ++ toString (width - 1) ++ " downto 0)"

/-- `connectOcpSignal` for `MByteEn` of a consumer that is connected; `os` is its own signal and `other` that of
the other end. -/
def connectOcpSignal (lang : Language) (o : OtherEnd) (os other : OcpSignal) (oa : OcpAdapt) : Option Binding :=
  (o.temp lang).map fun temp =>
    match oa.expr with
    | some expr => .adapted expr
    | none =>
      if os.width ≠ other.width then .low (temp ++ "MByteEn") os.width
      else .whole (temp ++ "MByteEn")

end OpenCpi.Hdl
