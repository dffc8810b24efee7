import TinyLang.Text.Basic

/-!
# The line buffer of compiled programs

A compiled program puts a line together in a memory of a fixed size. The line starts where the memory
does and ends at a zero byte, for which one byte is kept back; what does not fit is dropped. Nothing
here relies on writes staying inside the memory: one that does not is remembered and has no other
effect.
-/

namespace TinyLang.Native

/-- A memory, and how much of it the line takes up. -/
structure LineBuffer where
  memory : Array UInt8
  /-- The number of bytes of the line, without the zero behind them. -/
  length : Nat
  /-- Whether a write has gone outside of the memory. -/
  overrun : Bool
deriving DecidableEq, Repr

/-- Text ends at the first zero byte. -/
def upToZero (t : Text) : Text := t.takeWhile (· != 0)

namespace LineBuffer

/-- The number of bytes of the memory. -/
def capacity : Nat := 65536

/-- A memory of zeros. -/
def empty : LineBuffer := ⟨Array.replicate capacity 0, 0, false⟩

/-- Writes a byte. -/
def store (b : LineBuffer) (i : Nat) (v : UInt8) : LineBuffer :=
  if i < b.memory.size then { b with memory := b.memory.setIfInBounds i v }
  else { b with overrun := true }

/-- Writes bytes one behind the other. -/
def copy (b : LineBuffer) (i : Nat) : Text → LineBuffer
  | [] => b
  | v :: rest => (b.store i v).copy (i + 1) rest

/-- How many of `n` bytes are appended. -/
def fitting (b : LineBuffer) (n : Nat) : Nat :=
  if capacity ≤ b.length + n + 1 then capacity - b.length - 1 else n

/-- Appends to the line as much of a text as fits. -/
def append (b : LineBuffer) (t : Text) : LineBuffer :=
  let n := b.fitting t.length
  { b.copy b.length (t.take n) with length := b.length + n }.store (b.length + n) 0

/-- Forgets the length of the line, and leaves its bytes. -/
def abandon (b : LineBuffer) : LineBuffer := { b with length := 0 }

/-- Starts an empty line. -/
def clear (b : LineBuffer) : LineBuffer := b.abandon.store 0 0

/-- The line as it stands in the memory. -/
def text (b : LineBuffer) : Text := upToZero b.memory.toList

end LineBuffer

end TinyLang.Native
