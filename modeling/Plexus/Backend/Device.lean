import Plexus.Value.Number

/-!
# Devices

A device is named by its type and, if there are several, by an index.  Which of the
accelerators a host has decides what an open request comes to.
-/

namespace Plexus

/-- The accelerators of a host, and its memory. -/
structure Host where
  cuda : Bool := false
  mps : Bool := false
  [memory : Memory]
deriving Inhabited

/-- A device of a host. -/
structure Device where
  type : String
  index : Option Int
deriving DecidableEq, Inhabited

namespace Device

/-- The device types that have a name. -/
def types : List String := [
  "cpu", "cuda", "ipu", "xpu", "mkldnn", "opengl", "opencl", "ideep", "hip", "ve", "fpga", "maia",
  "xla", "lazy", "vulkan", "mps", "meta", "hpu", "mtia", "privateuseone"]

/-- The name of a device. -/
def name (d : Device) : String :=
  match d.index with
  | none => d.type
  | some i => d.type ++ ":" ++ toString i

/-- The greatest index that can be written. -/
def greatestIndex : Nat := 2 ^ 31 - 1

/-- An index as it is written: a digit, or several that do not start with zero. -/
def writtenIndex? (cs : List Char) : Option Nat :=
  match cs with
  | [] => none
  | ['0'] => some 0
  | '0' :: _ => none
  | cs =>
      if cs.all Decimal.isDigit then
        let n := Decimal.natOfDigits cs
        if n ≤ greatestIndex then some n else none
      else none

/-- The device of an index, which is kept in a signed byte; there, -1 stands for no index. -/
def ofIndex (type : String) (n : Nat) : Device :=
  let index := Int.bmod n 256
  ⟨type, if index = -1 then none else some index⟩

/-- The device with a name. -/
def ofName? (s : String) : Option Device :=
  let cs := s.toList
  let type := String.ofList (cs.takeWhile (· != ':'))
  if !types.contains type then none
  else match cs.dropWhile (· != ':') with
    | [] => some ⟨type, none⟩
    | _ :: rest => (writtenIndex? rest).map (ofIndex type)

/-- The device, if the host has it; only accelerators may be absent. -/
def onHost (host : Host) (d : Device) : Except Fault Device :=
  if d.type == "cuda" && !host.cuda then .error (.deviceAbsent "CUDA")
  else if d.type == "mps" && !host.mps then .error (.deviceAbsent "MPS")
  else .ok d

/-- The first place that a number cannot ask for. -/
def placeLimit : Nat := 2 ^ 63

/--
The device that a request comes to.  A device that is named must exist, and so must the
accelerator that a bare number gives the index of.  An open request takes the first
accelerator there is and, unless it insists on one, the processor otherwise.
-/
def resolve (host : Host) (requested : Value) (acceleratorOnly : Bool) : Except Fault Device :=
  match requested with
  | .text name =>
      match ofName? name with
      | none => .error .deviceRefused
      | some d => d.onHost host
  | .int n =>
      if 0 ≤ n ∧ n < placeLimit then (ofIndex "cuda" n.toNat).onHost host
      else .error .deviceRefused
  | .null =>
      if host.cuda then .ok ⟨"cuda", none⟩
      else if host.mps then .ok ⟨"mps", none⟩
      else if acceleratorOnly then .error .noAccelerator
      else .ok ⟨"cpu", none⟩
  | _ => .error .mistyped

end Device

/-- What a host can run. -/
structure Capabilities where
  accelerator : Option String
  hasGraphBuilder : Bool
  hasDense : Bool := true
deriving DecidableEq, Inhabited

namespace Capabilities

/-- Looks at a host. -/
def probe (host : Host) : Capabilities :=
  let accelerator := if host.cuda then some "cuda" else if host.mps then some "mps" else none
  { accelerator, hasGraphBuilder := accelerator.isSome }

end Capabilities
end Plexus
